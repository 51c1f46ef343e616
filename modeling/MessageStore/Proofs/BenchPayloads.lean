import MessageStore.Command.Bench
import MessageStore.Proofs.EscapedText
import MessageStore.Proofs.TableContract
import Mathlib.Algebra.Order.Floor.Div
import Mathlib.Tactic

/-!
# What a benchmark publishes

The messages of a publisher are cut into requests of one size, the last of
which may be smaller.  Every message of the benchmark has a payload of its own,
since a number has no hyphen in it.
-/

namespace MessageStore

namespace Bench

/-! ## Sizes -/

section Sizes

variable (messages batch : Nat)

theorem sizes_cases :
    (messages % max batch 1 = 0 ∧
        sizes messages batch = List.replicate (messages / max batch 1) (max batch 1)) ∨
      (messages % max batch 1 ≠ 0 ∧
        sizes messages batch = List.replicate (messages / max batch 1) (max batch 1) ++
          [messages % max batch 1]) := by
  by_cases hrest : messages % max batch 1 = 0
  · refine Or.inl ⟨hrest, ?_⟩
    simp only [sizes, if_pos hrest, List.append_nil]
  · refine Or.inr ⟨hrest, ?_⟩
    simp only [sizes, if_neg hrest]

theorem sum_sizes : (sizes messages batch).sum = messages := by
  have hsplit := Nat.div_add_mod' messages (max batch 1)
  rcases sizes_cases messages batch with ⟨hrest, hsizes⟩ | ⟨-, hsizes⟩
  · rw [hsizes, List.sum_replicate, smul_eq_mul]
    rwa [hrest, Nat.add_zero] at hsplit
  · rw [hsizes, List.sum_append, List.sum_replicate, List.sum_singleton, smul_eq_mul]
    exact hsplit

theorem length_sizes : (sizes messages batch).length = messages ⌈/⌉ max batch 1 := by
  have hpos : 0 < max batch 1 := lt_max_of_lt_right Nat.zero_lt_one
  have hsplit := Nat.div_add_mod' messages (max batch 1)
  have hlt := Nat.mod_lt messages hpos
  rw [Nat.ceilDiv_eq_add_pred_div]
  rcases sizes_cases messages batch with ⟨hrest, hsizes⟩ | ⟨hrest, hsizes⟩
  · rw [hsizes, List.length_replicate, eq_comm, Nat.div_eq_iff hpos]
    omega
  · rw [hsizes, List.length_append, List.length_replicate, List.length_singleton, eq_comm,
      Nat.div_eq_iff hpos, Nat.add_one_mul]
    omega

variable {messages batch}

theorem size_bounds {size : Nat} (hmem : size ∈ sizes messages batch) :
    1 ≤ size ∧ size ≤ max batch 1 := by
  have hpos : 0 < max batch 1 := lt_max_of_lt_right Nat.zero_lt_one
  have hwhole : ∀ {size}, size ∈ List.replicate (messages / max batch 1) (max batch 1) →
      1 ≤ size ∧ size ≤ max batch 1 := by
    intro size hmem
    rw [(List.mem_replicate.mp hmem).2]
    exact ⟨hpos, Nat.le_refl _⟩
  rcases sizes_cases messages batch with ⟨-, hsizes⟩ | ⟨hrest, hsizes⟩
  · exact hwhole (hsizes ▸ hmem)
  · rw [hsizes, List.mem_append, List.mem_singleton] at hmem
    rcases hmem with hmem | rfl
    · exact hwhole hmem
    · exact ⟨Nat.pos_of_ne_zero hrest, (Nat.mod_lt _ hpos).le⟩

/-- Only the last request may be smaller. -/
theorem size_of_mem_dropLast {size : Nat} (hmem : size ∈ (sizes messages batch).dropLast) :
    size = max batch 1 := by
  rcases sizes_cases messages batch with ⟨-, hsizes⟩ | ⟨-, hsizes⟩
  · rw [hsizes] at hmem
    exact (List.mem_replicate.mp (List.mem_of_mem_dropLast hmem)).2
  · rw [hsizes, List.dropLast_concat] at hmem
    exact (List.mem_replicate.mp hmem).2

end Sizes

/-! ## Payloads -/

theorem hyphen_notMem (n : Nat) : '-' ∉ Nat.toDigits 10 n := by
  intro hmem
  have hdigit := Nat.isDigit_of_mem_toDigits (by decide) (by decide) hmem
  contradiction

theorem toDigits_inj {n m : Nat} (heq : Nat.toDigits 10 n = Nat.toDigits 10 m) : n = m := by
  have hvalue := congrArg (Nat.ofDigitChars 10 · 0) heq
  simpa only [Nat.ofDigitChars_ten_toDigits] using hvalue

/-- The parts of a payload, with hyphens between them. -/
def payloadParts (publisher request place : Nat) : List (List Char) :=
  ["bench".toList, Nat.toDigits 10 publisher, Nat.toDigits 10 request, Nat.toDigits 10 place]

theorem toList_payload (publisher request place : Nat) :
    (payload publisher request place).toList =
      ['-'].intercalate (payloadParts publisher request place) := by
  simp only [payload, String.toList_append, Nat.toString_eq_repr, Nat.toList_repr]
  simp [payloadParts, List.intercalate]

theorem splitOn_payload (publisher request place : Nat) :
    (payload publisher request place).toList.splitOn '-' =
      payloadParts publisher request place := by
  rw [toList_payload, List.splitOn_intercalate]
  · intro part hmem
    simp only [payloadParts, List.mem_cons, List.not_mem_nil, or_false] at hmem
    rcases hmem with rfl | rfl | rfl | rfl
    · decide
    all_goals exact hyphen_notMem _
  · exact List.cons_ne_nil _ _

/-- A payload names its publisher, its request and its place. -/
theorem payload_inj {publisher request place publisher' request' place' : Nat}
    (heq : payload publisher request place = payload publisher' request' place') :
    publisher = publisher' ∧ request = request' ∧ place = place' := by
  have hparts := congrArg (fun text => text.toList.splitOn '-') heq
  simp only [splitOn_payload, payloadParts, List.cons.injEq, and_true, true_and] at hparts
  exact ⟨toDigits_inj hparts.1, toDigits_inj hparts.2.1, toDigits_inj hparts.2.2⟩

/-! ## The messages of a publisher -/

/-- The messages of one publisher by request and place in the request, as it
makes them. -/
def places (sizes : List Nat) : List (Nat × Nat) :=
  sizes.zipIdx.flatMap fun (size, request) => (List.range size).map (request, ·)

theorem mem_places {sizes : List Nat} {request place : Nat} :
    (request, place) ∈ places sizes ↔ ∃ size, sizes[request]? = some size ∧ place < size := by
  simp [places, List.mem_zipIdx_iff_getElem?]

/-- The requests are made in order, and the messages of a request as well. -/
theorem places_increasing (sizes : List Nat) :
    (places sizes).Pairwise (Prod.Lex (· < ·) (· < ·)) := by
  refine List.pairwise_flatMap.mpr ⟨fun (size, request) _ => ?_, ?_⟩
  · rw [List.pairwise_map]
    exact List.pairwise_lt_range.imp fun hlt => .right request hlt
  · have hindices : (sizes.zipIdx.map Prod.snd).Pairwise (· < ·) := by
      rw [List.zipIdx_map_snd]
      exact List.pairwise_lt_range'
    refine (List.pairwise_map.mp hindices).imp fun hlt first hfirst second hsecond => ?_
    obtain ⟨place, -, rfl⟩ := List.mem_map.mp hfirst
    obtain ⟨other, -, rfl⟩ := List.mem_map.mp hsecond
    exact .left place other hlt

theorem nodup_places (sizes : List Nat) : (places sizes).Nodup :=
  (places_increasing sizes).imp fun hless heq => by
    subst heq
    rcases Prod.lex_def.mp hless with hlt | ⟨-, hlt⟩ <;> exact Nat.lt_irrefl _ hlt

theorem length_places (sizes : List Nat) : (places sizes).length = sizes.sum := by
  rw [places, List.length_flatMap]
  simp only [List.length_map, List.length_range]
  exact congrArg List.sum (List.zipIdx_map_fst 0 sizes)

/-- The payloads of a publisher, one message after the other. -/
def texts (sizes : List Nat) (publisher : Nat) : List String :=
  (places sizes).map fun (request, place) => payload publisher request place

theorem length_texts (sizes : List Nat) (publisher : Nat) :
    (texts sizes publisher).length = sizes.sum := by
  rw [texts, List.length_map, length_places]

/-- No two messages of the benchmark have the same payload. -/
theorem nodup_texts (sizes : List Nat) (threads : Nat) :
    ((List.range threads).flatMap (texts sizes)).Nodup := by
  refine List.nodup_flatMap.mpr ⟨fun publisher _ => ?_, ?_⟩
  · refine (nodup_places sizes).map fun (request, place) (request', place') heq => ?_
    obtain ⟨-, rfl, rfl⟩ := payload_inj heq
    rfl
  · refine List.nodup_range.imp fun hne text hfirst hsecond => hne ?_
    obtain ⟨place, -, rfl⟩ := List.mem_map.mp hfirst
    obtain ⟨other, -, heq⟩ := List.mem_map.mp hsecond
    exact (payload_inj heq).1.symm

/-! ## Its requests -/

/-- The requests of a publisher, in order. -/
def requests (arguments : BenchArguments) (publisher : Nat) : List Request :=
  (sizes arguments.messages arguments.batch).zipIdx.map fun (size, request) =>
    .ofTexts arguments.topic ((List.range size).map (payload publisher request))

theorem calls_eq (arguments : BenchArguments) (publisher : Nat) :
    calls arguments publisher = (requests arguments publisher).map Call.persist := by
  rw [calls, requests, List.map_map]
  rfl

theorem flatMap_payloads (arguments : BenchArguments) (publisher : Nat) :
    (requests arguments publisher).flatMap Request.payloads =
      (texts (sizes arguments.messages arguments.batch) publisher).map Utf8.encode := by
  rw [requests, texts, places, List.flatMap_map, List.map_flatMap, List.map_flatMap]
  refine List.flatMap_congr fun (size, request) _ => ?_
  simp only [Request.ofTexts, Request.payloads_ofPayloads, List.map_map]
  rfl

end Bench

end MessageStore
