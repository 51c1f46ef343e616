import MessageStore.Proofs.JournalRepair
import MessageStore.Proofs.PathPieces

/-!
# Files that are found

A path that leads to a file ends in a name, and the walk up to this name has
been through the directories above it.  So none of them is missing when the
file is to be opened again, however the path is written: with separators that
touch, with dots, or from the root.
-/

namespace MessageStore
namespace Path

/-! ## From the last separator on -/

/-- Text without a separator is one piece; other text has a last separator. -/
theorem exists_last_separator (text : List Char) :
    '/' ∉ text ∨ ∃ before last, text = before ++ '/' :: last ∧ '/' ∉ last := by
  by_cases hmem : '/' ∈ text.reverse
  · obtain ⟨last, before, hsplit, hunbroken⟩ := List.eq_append_cons_of_mem hmem
    refine .inr ⟨before.reverse, last.reverse, ?_, by simpa using hunbroken⟩
    have hback := congrArg List.reverse hsplit
    simpa using hback
  · exact .inl (by simpa using hmem)

theorem pieces_of_unbroken {text : List Char} (hunbroken : '/' ∉ text) :
    pieces (.ofList text) = [.ofList text] := by
  rw [pieces_eq, String.toList_ofList, List.splitOn_eq_singleton hunbroken]
  rfl

theorem pieces_append {last : List Char} (before : List Char) (hunbroken : '/' ∉ last) :
    pieces (.ofList (before ++ '/' :: last)) = pieces (.ofList before) ++ [.ofList last] := by
  rw [pieces_eq, pieces_eq, String.toList_ofList, String.toList_ofList,
    List.splitOn_append_cons_self, List.splitOn_eq_singleton hunbroken, List.map_append]
  rfl

theorem intercalate_pieces (path : String) : "/".intercalate (pieces path) = path := by
  apply String.toList_injective
  rw [String.toList_intercalate, pieces_eq, List.map_map]
  have hsame : String.toList ∘ String.ofList = id := funext fun _ => String.toList_ofList
  rw [hsame, List.map_id]
  exact List.intercalate_splitOn '/'

/-- The last piece makes a stage of the whole path, if it is a step. -/
theorem stages_of_pieces {path before : String} {last : String}
    (hpieces : pieces path = pieces before ++ [last]) :
    stages path =
      (if isStep (pieces before).length last then [path] else []) ++ stages before := by
  have hwhole : "/".intercalate ((pieces path).take ((pieces before).length + 1)) = path := by
    rw [List.take_of_length_le (by simp [hpieces]), intercalate_pieces]
  have hearlier : ∀ piece ∈ ((pieces before).zipIdx.filter fun piece =>
        isStep piece.2 piece.1).reverse,
      "/".intercalate ((pieces path).take (piece.2 + 1)) =
        "/".intercalate ((pieces before).take (piece.2 + 1)) := by
    intro piece hmem
    have hbound := List.snd_lt_of_mem_zipIdx (List.mem_of_mem_filter (List.mem_reverse.mp hmem))
    rw [hpieces, List.take_append_of_le_length (by omega)]
  rw [stages, stages, ← List.map_congr_left hearlier]
  simp only [hpieces, List.zipIdx_append, List.filter_append, Nat.zero_add, List.zipIdx_singleton,
    List.filter_singleton, List.reverse_append, List.map_append]
  rw [hpieces] at hwhole
  congr 1
  cases hstep : isStep (pieces before).length last with
  | true => simpa using hwhole
  | false => rfl

theorem names_of_pieces {path before last : String}
    (hpieces : pieces path = pieces before ++ [last]) :
    names path = names before ++ if last = "" then [] else [last] := by
  rw [names, names, hpieces, List.filter_append, List.filter_singleton]
  by_cases hnone : last = ""
  · simp [hnone]
  · simp [hnone]

theorem isStep_eq_false {index : Nat} {piece : String} (hstep : isStep index piece = false) :
    piece = "" ∨ piece = "." := by
  by_cases hnone : piece = ""
  · exact .inl hnone
  · simp [isStep, hnone] at hstep
    exact .inr hstep.1

theorem walk_of_not_step {path before last : String} {tree : Tree} {start here : Location}
    (hpieces : pieces path = pieces before ++ [last])
    (hstep : isStep (pieces before).length last = false)
    (hwalk : (names path).foldlM tree.enter start = .ok here) :
    (names before).foldlM tree.enter start = .ok here := by
  rw [names_of_pieces hpieces, List.foldlM_append] at hwalk
  rcases isStep_eq_false hstep with hnone | hdot
  · simpa [hnone] using hwalk
  · cases hbefore : (names before).foldlM tree.enter start with
    | error error =>
        rw [hbefore] at hwalk
        contradiction
    | ok there =>
        rw [hbefore, hdot] at hwalk
        exact hwalk

/-- A walk along a path is over at its first stage: nothing but dots comes behind
it. -/
theorem exists_stage (text : List Char) :
    stages (.ofList text) = [] ∨
      ∃ front rest, stages (.ofList text) = .ofList front :: rest ∧ front <+: text ∧
        front ≠ [] ∧ ∀ (tree : Tree) (start here : Location),
          (names (.ofList text)).foldlM tree.enter start = .ok here →
            (names (.ofList front)).foldlM tree.enter start = .ok here := by
  rcases exists_last_separator text with hunbroken | ⟨before, last, htext, hunbroken⟩
  · by_cases hnone : text = []
    · left
      rw [stages, pieces_of_unbroken hunbroken]
      simp [hnone, isStep]
    · refine .inr ⟨text, [], ?_, List.prefix_rfl, hnone, fun _ _ _ hwalk => hwalk⟩
      have hstep : isStep 0 (.ofList text) = true := by
        simp [isStep, String.ofList_eq_empty_iff, hnone]
      rw [stages, pieces_of_unbroken hunbroken]
      simp [hstep]
  · have hpieces := pieces_append before hunbroken
    have hshorter : before.length < text.length := by
      rw [htext, List.length_append, List.length_cons]
      omega
    rw [← htext] at hpieces
    have hstages := stages_of_pieces hpieces
    cases hstep : isStep (pieces (.ofList before)).length (.ofList last) with
    | true =>
        rw [hstep] at hstages
        exact .inr ⟨text, _, hstages, List.prefix_rfl, by simp [htext],
          fun _ _ _ hwalk => hwalk⟩
    | false =>
        rw [hstep] at hstages
        rw [hstages]
        rcases exists_stage before with hnone | ⟨front, rest, hfront, hbegins, hsome, hwalk⟩
        · exact .inl hnone
        · refine .inr ⟨front, rest, hfront, ?_, hsome, fun tree start here hall => ?_⟩
          · rw [htext]
            exact hbegins.trans (List.prefix_append _ _)
          · exact hwalk tree start here (walk_of_not_step hpieces hstep hall)
termination_by text.length

/-- Only a shorter text is to be looked at. -/
theorem check_of_prefix {front text : List Char} (hbegins : front <+: text) (hsome : front ≠ [])
    (hcheck : check (.ofList text) = .ok ()) : check (.ofList front) = .ok () := by
  obtain ⟨rest, rfl⟩ := hbegins
  rw [check] at hcheck ⊢
  simp only [String.toList_ofList] at hcheck ⊢
  split at hcheck
  next => contradiction
  next hnul =>
    split at hcheck
    next => contradiction
    next =>
      split at hcheck
      next => contradiction
      next hsize =>
        rw [String.ofList_append, String.utf8ByteSize_append] at hsize
        rw [if_neg, if_neg, if_neg]
        · omega
        · simpa [String.ofList_eq_empty_iff] using hsome
        · intro hfront
          refine hnul ?_
          rw [List.contains_append, hfront]
          rfl

theorem isAbsolute_of_prefix {front text : List Char} (hbegins : front <+: text)
    (hsome : front ≠ []) :
    isAbsolute (.ofList front) = isAbsolute (.ofList text) := by
  obtain ⟨first, front, rfl⟩ := List.exists_cons_of_ne_nil hsome
  obtain ⟨rest, rfl⟩ := hbegins
  rw [Bool.eq_iff_iff, isAbsolute_iff, isAbsolute_iff]
  simp

end Path

namespace Tree

variable {tree : Tree} {path : String} {here location : Location} {id : Nat}

theorem find_of_walk (hcheck : Path.check path = .ok ())
    (hwalk : (Path.names path).foldlM tree.enter
      (if Path.isAbsolute path then [] else tree.workingDirectory) = .ok here) :
    tree.find path = .ok (here, .directory) := by
  rcases List.eq_nil_or_concat (Path.names path) with hnone | ⟨front, name, hnames⟩
  · rw [hnone] at hwalk
    cases hwalk
    simp [find, resolve, hcheck, hnone, bind, Except.bind, pure, Except.pure]
  · rw [List.concat_eq_append] at hnames
    rw [hnames, List.foldlM_append] at hwalk
    cases hfront : front.foldlM tree.enter
        (if Path.isAbsolute path then [] else tree.workingDirectory) with
    | error error =>
        rw [hfront] at hwalk
        contradiction
    | ok there =>
        rw [hfront] at hwalk
        have henter : tree.enter there name = .ok here := by
          rw [← hwalk]
          exact (bind_pure _).symm
        simp only [find, resolve, hcheck, hnames, List.dropLast_concat, List.getLast?_concat,
          hfront, bind, Except.bind, pure, Except.pure]
        by_cases hstep : name = "." ∨ name = ".."
        · rw [if_pos hstep, henter]
        · rw [if_neg hstep]
          rw [not_or] at hstep
          rw [enter, if_neg hstep.1, if_neg hstep.2] at henter
          dsimp only
          split at henter
          next => contradiction
          next => contradiction
          next => contradiction
          next hentry =>
            cases henter
            rw [hentry]

/-- The directories on the way of a path that was walked need not be made. -/
theorem makeDirectories_stages {before text : List Char} (hbefore : before <+: text)
    (hcheck : Path.check (.ofList text) = .ok ())
    (hwalk : (Path.names (.ofList before)).foldlM tree.enter
      (if Path.isAbsolute (.ofList text) then [] else tree.workingDirectory) = .ok here) :
    tree.makeDirectories (Path.stages (.ofList before)) = (.ok (), tree) := by
  rcases Path.exists_stage before with hnone | ⟨front, rest, hfront, hbegins, hsome, hstage⟩
  · rw [hnone]
    rfl
  · have hshorter := hbegins.trans hbefore
    rw [← Path.isAbsolute_of_prefix hshorter hsome] at hwalk
    have hfind := find_of_walk (Path.check_of_prefix hshorter hsome hcheck)
      (hstage tree _ here hwalk)
    have hthere : tree.isDirectory (.ofList front) = true := isDirectory_iff.mpr ⟨here, hfind⟩
    rw [hfront, makeDirectories, makeFrom, makeDirectory_of_isDirectory hthere]
    dsimp only
    rw [if_neg (by decide), if_pos (isMade_of_isDirectory hthere), makeEach]

/-- A walk that ends at a name has been through what is in front of the name. -/
theorem resolve_eq_entry {directory : Location} {name : String}
    (hresolve : tree.resolve path = .ok (.entry directory name)) :
    Path.check path = .ok () ∧ name ≠ "." ∧ ∃ front, Path.names path = front ++ [name] ∧
      front.foldlM tree.enter
        (if Path.isAbsolute path then [] else tree.workingDirectory) = .ok directory := by
  simp only [resolve, bind, Except.bind, pure, Except.pure] at hresolve
  split at hresolve
  next => contradiction
  next hcheck =>
    split at hresolve
    next => contradiction
    next there hwalk =>
      rcases List.eq_nil_or_concat (Path.names path) with hnone | ⟨front, last, hnames⟩
      · simp [hnone] at hresolve
      · rw [List.concat_eq_append] at hnames
        rw [hnames, List.dropLast_concat] at hwalk
        simp only [hnames, List.getLast?_concat] at hresolve
        split at hresolve
        next => split at hresolve <;> simp at hresolve
        next hstays =>
          simp only [Except.ok.injEq, Ending.entry.injEq] at hresolve
          obtain ⟨rfl, rfl⟩ := hresolve
          exact ⟨hcheck, fun hdot => hstays (.inl hdot), front, hnames, hwalk⟩

/-- The directories above the place of a file need not be made. -/
theorem Places.directories {directory : Location} {name : String} {file : Option Nat}
    (hplaces : tree.Places path directory name file) :
    tree.makeDirectories (Path.above path) = (.ok (), tree) := by
  obtain ⟨text, rfl⟩ : ∃ text, path = .ofList text := ⟨path.toList, String.ofList_toList.symm⟩
  obtain ⟨hcheck, hstays, front, hnames, hwalk⟩ := resolve_eq_entry hplaces.resolve
  rcases Path.exists_last_separator text with hunbroken | ⟨before, last, htext, hunbroken⟩
  · have habove : Path.above (.ofList text) = [] := by
      rw [Path.above, Path.stages, Path.pieces_of_unbroken hunbroken]
      cases hstep : Path.isStep 0 (.ofList text) <;> simp [hstep]
    rw [habove]
    rfl
  · have hpieces := Path.pieces_append before hunbroken
    rw [← htext] at hpieces
    have hlast : String.ofList last ≠ "" := by
      intro hnone
      have hends := (Path.endsInSeparator_iff (.ofList text)).mpr <| by
        rw [String.toList_ofList, htext, String.ofList_eq_empty_iff.mp hnone]
        exact List.suffix_append _ _
      rw [hplaces.separator] at hends
      contradiction
    have hsplit := Path.names_of_pieces hpieces
    rw [hnames, if_neg hlast] at hsplit
    obtain ⟨hfront, hname⟩ := List.append_inj' hsplit rfl
    rw [List.singleton_inj] at hname
    have hstep : Path.isStep (Path.pieces (.ofList before)).length (.ofList last) = true := by
      rw [hname] at hstays
      simp [Path.isStep, hlast, hstays]
    rw [Path.above, Path.stages_of_pieces hpieces, if_pos hstep, List.singleton_append,
      List.tail_cons]
    rw [hfront] at hwalk
    exact makeDirectories_stages (htext ▸ List.prefix_append before _) hcheck hwalk

theorem exists_places_of_find (hfind : tree.find path = .ok (location, .file id)) :
    ∃ directory name, tree.Places path directory name (some id) := by
  simp only [find, bind, Except.bind] at hfind
  split at hfind
  next => contradiction
  next hresolve =>
    split at hfind
    next => simp [pure, Except.pure] at hfind
    next directory name =>
      split at hfind
      next => contradiction
      next node hentry =>
        split at hfind
        next => contradiction
        next => simp [pure, Except.pure] at hfind
        next found =>
          split at hfind
          next => contradiction
          next hseparator =>
            simp only [pure, Except.pure, Except.ok.injEq, Prod.mk.injEq, Node.file.injEq] at hfind
            obtain ⟨-, rfl⟩ := hfind
            exact ⟨directory, name, hresolve, by simpa using hseparator, hentry⟩

end Tree

/-- A file that a path leads to has all that is needed to open it. -/
theorem Volume.Sound.hosts {volume : Volume} {path : String} {location : Location} {id : Nat}
    (hsound : volume.Sound) (hfind : volume.tree.find path = .ok (location, .file id)) :
    volume.Hosts path id := by
  obtain ⟨directory, name, hplaces⟩ := Tree.exists_places_of_find hfind
  exact ⟨⟨directory, name, hplaces⟩, hplaces.directories, hsound.inside hfind⟩

end MessageStore
