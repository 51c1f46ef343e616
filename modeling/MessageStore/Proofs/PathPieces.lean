import MessageStore.Config
import MessageStore.Volume
import Mathlib.Data.String.Basic
import Mathlib.Tactic

/-!
# Paths in one directory

A path is cut at its separators, wherever they stand.  So two names that are
put below the same directory lead to the same place but for the name at the
end: the same directories are above them, and a walk to one of them goes as
far as the walk to the other, and fails where that fails.
-/

namespace MessageStore
namespace Path

/-! ## Cutting at separators -/

open String in
/-- In the middle of a path the pieces `found` are complete, the characters `l`
are those up to the last separator, and `m` those of the piece begun. -/
theorem splitOnAux_separator (l m r : List Char) (found : List String) :
    String.splitOnAux (ofList (l ++ m ++ r)) "/" ⟨utf8Len l⟩ ⟨utf8Len (l ++ m)⟩ 0 found =
      found.reverse ++ (List.splitOnPPrepend (· == '/') r m.reverse).map ofList := by
  have hget : Pos.Raw.get "/" 0 = '/' := by decide
  have hnext : Pos.Raw.next "/" 0 = ⟨1⟩ := by decide
  have hpassed : Pos.Raw.atEnd "/" ⟨1⟩ = true := by decide
  rw [String.splitOnAux]
  cases r with
  | nil =>
      have hend : Pos.Raw.atEnd (ofList (l ++ m ++ [])) ⟨utf8Len (l ++ m)⟩ = true :=
        (atEnd_of_valid (l ++ m) []).mpr rfl
      rw [if_pos hend, utf8Len_append, extract_of_valid]
      simp
  | cons c r =>
      have hend : ¬Pos.Raw.atEnd (ofList (l ++ m ++ c :: r)) ⟨utf8Len (l ++ m)⟩ = true := by
        rw [atEnd_of_valid]
        simp
      have hhere : Pos.Raw.get (ofList (l ++ m ++ c :: r)) ⟨utf8Len (l ++ m)⟩ = c :=
        get_of_valid (l ++ m) (c :: r)
      have hafter : Pos.Raw.next (ofList (l ++ m ++ c :: r)) ⟨utf8Len (l ++ m)⟩ =
          ⟨utf8Len (l ++ m ++ [c])⟩ := by
        rw [next_of_valid (l ++ m) c r]
        simp [Nat.add_assoc]
      rw [if_neg hend, hhere, hget, hnext, hafter]
      simp only [hpassed, if_true]
      split
      next hslash =>
        obtain rfl := eq_of_beq hslash
        have hback : Pos.Raw.unoffsetBy ⟨utf8Len (l ++ m ++ ['/'])⟩ ⟨1⟩ =
            ⟨utf8Len l + utf8Len m⟩ := by
          rw [utf8Len_append, utf8Len_append]
          rfl
        have hrest := splitOnAux_separator (l ++ m ++ ['/']) [] r (ofList m :: found)
        rw [List.append_nil, List.append_assoc (l ++ m)] at hrest
        rw [hback, extract_of_valid, List.singleton_append.symm, hrest]
        simp [List.splitOnPPrepend_cons_eq_if]
      next hother =>
        have hback : Pos.Raw.next (ofList (l ++ m ++ c :: r))
            (Pos.Raw.unoffsetBy ⟨utf8Len (l ++ m)⟩ 0) = ⟨utf8Len (l ++ m ++ [c])⟩ := hafter
        have hrest := splitOnAux_separator l (m ++ [c]) r found
        rw [← List.append_assoc, List.append_assoc (l ++ m)] at hrest
        rw [hback, List.singleton_append.symm, hrest]
        simp [List.splitOnPPrepend_cons_eq_if, hother]
termination_by r.length

theorem pieces_eq (path : String) :
    pieces path = (path.toList.splitOn '/').map String.ofList := by
  have hsplit := splitOnAux_separator [] [] path.toList []
  rw [List.nil_append, List.nil_append, String.ofList_toList] at hsplit
  rw [pieces, String.splitOn, if_neg (by decide), List.splitOn_eq_splitOnP,
    List.splitOnP_eq_splitOnPPrepend]
  exact hsplit

/-- A name that can be put into a directory: no step elsewhere, and no more
than one name. -/
structure IsPlain (name : String) : Prop where
  ne_empty : name ≠ ""
  ne_here : name ≠ "."
  ne_above : name ≠ ".."
  unbroken : '/' ∉ name.toList
  no_nul : '\x00' ∉ name.toList

theorem isPlain_messages : IsPlain "messages.jsonl" :=
  ⟨by decide, by decide, by decide, by decide, by decide⟩

theorem isPlain_payloads : IsPlain "payloads.jsonl" :=
  ⟨by decide, by decide, by decide, by decide, by decide⟩

theorem endsInSeparator_iff (path : String) :
    endsInSeparator path = true ↔ ['/'] <:+ path.toList := by
  rw [endsInSeparator, ← String.endsWith_toSlice, String.Slice.endsWith_string_iff]
  simp

theorem isAbsolute_iff (path : String) : isAbsolute path = true ↔ ['/'] <+: path.toList := by
  rw [isAbsolute, String.startsWith_string_iff]
  rfl

section

variable (directory : String)

/-- What stands before a name in a directory ends in a separator, or is
nothing. -/
theorem exists_start : ∃ start : List Char,
    (∀ name, (join directory name).toList = start ++ name.toList) ∧
      (start = [] ∨ ∃ above, start = above ++ ['/']) := by
  by_cases hplain : directory = "" || endsInSeparator directory
  · refine ⟨directory.toList, fun name => ?_, ?_⟩
    · rw [join, if_pos hplain, String.toList_append]
    · rw [Bool.or_eq_true, decide_eq_true_eq, endsInSeparator_iff] at hplain
      rcases hplain with rfl | ⟨above, habove⟩
      · exact Or.inl rfl
      · exact Or.inr ⟨above, habove.symm⟩
  · refine ⟨directory.toList ++ ['/'], fun name => ?_, Or.inr ⟨_, rfl⟩⟩
    rw [join, if_neg hplain, String.toList_append, String.toList_append]
    rfl

theorem exists_pieces : ∃ front : List String,
    ∀ name, IsPlain name → pieces (join directory name) = front ++ [name] := by
  obtain ⟨start, hjoin, hstart⟩ := exists_start directory
  rcases hstart with rfl | ⟨above, rfl⟩
  · refine ⟨[], fun name hname => ?_⟩
    rw [pieces_eq, hjoin, List.nil_append, List.splitOn_eq_singleton hname.unbroken]
    simp
  · refine ⟨(above.splitOn '/').map String.ofList, fun name hname => ?_⟩
    rw [pieces_eq, hjoin, List.append_assoc, List.singleton_append,
      List.splitOn_append_cons_self, List.splitOn_eq_singleton hname.unbroken]
    simp

end

variable {directory name other : String}

theorem exists_names (directory : String) : ∃ front : List String,
    ∀ name, IsPlain name → names (join directory name) = front ++ [name] := by
  obtain ⟨front, hpieces⟩ := exists_pieces directory
  refine ⟨front.filter (· ≠ ""), fun name hname => ?_⟩
  rw [names, hpieces name hname, List.filter_append, List.filter_singleton,
    decide_eq_true hname.ne_empty]
  rfl

/-- The directories above a name do not depend on the name. -/
theorem above_join (hname : IsPlain name) (hother : IsPlain other) :
    above (join directory name) = above (join directory other) := by
  obtain ⟨front, hpieces⟩ := exists_pieces directory
  have habove : ∀ name, IsPlain name → above (join directory name) =
      (front.zipIdx.filter fun piece => isStep piece.2 piece.1).reverse.map
        fun piece => "/".intercalate (front.take (piece.2 + 1)) := by
    intro name hname
    have hstep : isStep front.length name = true := by
      simp [isStep, hname.ne_empty, hname.ne_here]
    rw [above, stages, hpieces name hname]
    simp only [List.zipIdx_append, List.filter_append, Nat.zero_add, List.zipIdx_singleton,
      List.filter_singleton, hstep, cond_true, List.reverse_append, List.reverse_singleton,
      List.singleton_append, List.map_cons, List.tail_cons]
    refine List.map_congr_left fun piece hmem => ?_
    have hindex : piece.2 < front.length := by
      have hpiece := List.mem_of_mem_filter (List.mem_reverse.mp hmem)
      have hbound := List.snd_lt_of_mem_zipIdx hpiece
      rwa [Nat.add_zero] at hbound
    rw [List.take_append_of_le_length hindex]
  rw [habove name hname, habove other hother]

theorem endsInSeparator_join (hname : IsPlain name) :
    endsInSeparator (join directory name) = false := by
  obtain ⟨start, hjoin, -⟩ := exists_start directory
  rw [Bool.eq_false_iff, ne_eq, endsInSeparator_iff, hjoin]
  rintro ⟨before, hbefore⟩
  have hlast := congrArg List.getLast? hbefore
  have hsome : name.toList ≠ [] := fun hnil => hname.ne_empty (String.toList_eq_nil_iff.mp hnil)
  rw [List.getLast?_append_of_ne_nil _ hsome, List.getLast?_append_of_ne_nil _ (by simp)] at hlast
  exact hname.unbroken (List.mem_of_getLast? hlast.symm)

theorem isAbsolute_join (hname : IsPlain name) (hother : IsPlain other) :
    isAbsolute (join directory name) = isAbsolute (join directory other) := by
  obtain ⟨start, hjoin, -⟩ := exists_start directory
  have hhead : ∀ name, IsPlain name →
      (isAbsolute (join directory name) = true ↔ start.head? = some '/') := by
    intro name hname
    rw [isAbsolute_iff, hjoin]
    cases start with
    | nil =>
        refine ⟨fun hstarts => ?_, nofun⟩
        exact absurd (hstarts.subset List.mem_cons_self) hname.unbroken
    | cons c start => simp [eq_comm]
  rw [Bool.eq_iff_iff, hhead name hname, hhead other hother]

theorem check_join (hname : IsPlain name) (hother : IsPlain other)
    (hsize : name.utf8ByteSize = other.utf8ByteSize) :
    check (join directory name) = check (join directory other) := by
  have hnul : ∀ name, IsPlain name →
      ((join directory name).toList.contains '\x00' = directory.toList.contains '\x00') := by
    intro name hname
    have hwithout : name.toList.contains '\x00' = false := by simpa using hname.no_nul
    rw [join]
    split
    · rw [String.toList_append, List.contains_append, hwithout, Bool.or_false]
    · have hslash : "/".toList.contains '\x00' = false := by decide
      rw [String.toList_append, String.toList_append, List.contains_append, List.contains_append,
        hwithout, hslash, Bool.or_false, Bool.or_false]
  have hsome : ∀ name, IsPlain name → join directory name ≠ "" := by
    intro name hname hnone
    rw [join] at hnone
    split at hnone <;> simp_all [hname.ne_empty]
  have hsizes : (join directory name).utf8ByteSize = (join directory other).utf8ByteSize := by
    rw [join, join]
    split <;> simp [hsize]
  rw [check, check, hnul name hname, hnul other hother, if_neg (hsome name hname),
    if_neg (hsome other hother), hsizes]

theorem pieces_name (hname : IsPlain name) : pieces name = [name] := by
  rw [pieces_eq, List.splitOn_eq_singleton hname.unbroken]
  simp

/-- There is nothing above a name. -/
theorem above_name (hname : IsPlain name) : above name = [] := by
  have hstep : isStep 0 name = true := by simp [isStep, hname.ne_empty]
  rw [above, stages, pieces_name hname]
  simp [hstep]

end Path

/-- A path whose last name is plain leads to that name, in the directory where the
names in front of it lead. -/
theorem Tree.resolve_of_names (tree : Tree) {path name : String} {front : List String}
    (hname : Path.IsPlain name) (hnames : Path.names path = front ++ [name])
    (hcheck : Path.check path = .ok ()) :
    tree.resolve path =
      (front.foldlM tree.enter (if Path.isAbsolute path then [] else tree.workingDirectory)).map
        (Ending.entry · name) := by
  have hstays : ¬(name = "." ∨ name = "..") := not_or.mpr ⟨hname.ne_here, hname.ne_above⟩
  rw [Tree.resolve, hcheck, hnames]
  simp only [List.dropLast_concat, List.getLast?_concat, if_neg hstays]
  cases front.foldlM tree.enter
      (if Path.isAbsolute path then [] else tree.workingDirectory) with
  | error error => rfl
  | ok here => rfl

/-- A walk to a name in a directory is a walk to the directory. -/
theorem Tree.exists_walk (tree : Tree) (directory : String) {name : String}
    (hname : Path.IsPlain name) : ∃ walk : Except IoError Location,
      ∀ other, Path.IsPlain other → other.utf8ByteSize = name.utf8ByteSize →
        tree.resolve (Path.join directory other) = walk.map (Ending.entry · other) := by
  obtain ⟨front, hnames⟩ := Path.exists_names directory
  refine ⟨do
    Path.check (Path.join directory name)
    front.foldlM tree.enter
      (if Path.isAbsolute (Path.join directory name) then [] else tree.workingDirectory),
    fun other hother hsize => ?_⟩
  have hsame : Path.check (Path.join directory other) = Path.check (Path.join directory name) :=
    Path.check_join hother hname hsize
  cases hcheck : Path.check (Path.join directory name) with
  | error error =>
      rw [Tree.resolve, hsame, hcheck]
      rfl
  | ok =>
      rw [tree.resolve_of_names hother (hnames other hother) (hsame.trans hcheck),
        Path.isAbsolute_join hother hname]
      rfl

theorem Tree.resolve_name (tree : Tree) {name : String} (hname : Path.IsPlain name)
    (hcheck : Path.check name = .ok ()) :
    tree.resolve name = .ok (.entry tree.workingDirectory name) := by
  have hrelative : ¬Path.isAbsolute name = true := by
    rw [Path.isAbsolute_iff]
    exact fun hstarts => hname.unbroken (hstarts.subset List.mem_cons_self)
  have hnames : Path.names name = [] ++ [name] := by
    simp [Path.names, Path.pieces_name hname, hname.ne_empty]
  rw [tree.resolve_of_names hname hnames hcheck, if_neg hrelative]
  rfl

end MessageStore
