import ScopedFn.Proofs.Provenance.Free

/-!
# The names that files are given

A resource without a path is given the default path, or else that path with the least number, put
before its ending, that makes a new one. The numbers may meet other default names and paths that are
there, so each path is judged by all that came before it. Whatever the kind and the name of a
resource are, the file is named by plain characters, and its ending is found.

* `Provenance.numbered_defaultPath` : where the number is put;
* `Provenance.chosen_freePath` : which path is given;
* `Provenance.GivenInTurn` : how paths are given one after the other;
* `Provenance.IsFileName` : what files are named;
* `Provenance.names_specified` : the paths of an assignment.
-/

set_option autoImplicit false

namespace ScopedFn.Provenance

open ScopedFn.Path

variable {scope stem path p : Path} {taken taken' : List Path} {m : Meta} {n : ℕ}

/-! ### The ending -/

/-- The ending of all files. -/
def ending : Path := ".yaml".toList

/-- The ending is cut off, if something but dots stands before it. -/
theorem splitExtension_ending {head name : Path} (hhead : head = [] ∨ head.getLast? = some '/')
    (hslash : '/' ∉ name) (hname : ∃ c ∈ name, c ≠ '.') :
    splitExtension (head ++ (name ++ ending)) = (head ++ name, ending) := by
  have hfile : '/' ∉ name ++ ending := by
    simp [hslash, ending]
  have htake : ((name ++ ending).reverse.takeWhile (· != '.')).reverse = "yaml".toList := by
    rw [List.reverse_append]
    rfl
  have hstem : (name ++ ending).take ((name ++ ending).length - "yaml".toList.length - 1) = name := by
    simp [ending]
  have hany : name.any (· != '.') = true := by
    simpa using hname
  rw [splitExtension, splitLast_append hhead hfile]
  dsimp only
  rw [htake, hstem, if_pos ⟨by simp [ending], hany⟩]
  rfl

/-- A resource is named in the last segment of its default path. -/
theorem exists_defaultPath (scope : Path) (m : Meta) (stem : Path) :
    ∃ head : Path, (head = [] ∨ head.getLast? = some '/') ∧
      defaultPath scope m stem = head ++ fileName m := by
  unfold defaultPath
  cases hparts : [scope, stem, m.space.toList].filter (· != []) with
  | nil => exact ⟨[], .inl rfl, rfl⟩
  | cons first parts =>
    have hfirst : first ≠ [] := by
      have hmem : first ∈ [scope, stem, m.space.toList].filter (· != []) :=
        hparts ▸ List.mem_cons_self
      simpa using (List.mem_filter.1 hmem).2
    obtain ⟨head, hhead, hjoin⟩ := exists_head (foldl_join_ne_nil hfirst parts)
    refine ⟨head, hhead, ?_⟩
    rw [← hjoin _ (slash_notMem_fileName m), List.cons_append]
    simp only [List.foldl_append, List.foldl_cons, List.foldl_nil]

/-- What stands before the ending of the name of a file. -/
def fileStem (m : Meta) : Path := fileSegment m.kind ++ '_' :: fileSegment m.name

theorem fileName_eq (m : Meta) : fileName m = fileStem m ++ ending := rfl

/-- The ending of a default path is found, and what stands before it. -/
theorem numbered_defaultPath (scope : Path) (m : Meta) (stem : Path) :
    ∃ head : Path, (head = [] ∨ head.getLast? = some '/') ∧
      defaultPath scope m stem = head ++ (fileStem m ++ ending) ∧
      ∀ n, numbered (defaultPath scope m stem) n =
        head ++ (fileStem m ++ '_' :: Nat.toDigits 10 n ++ ending) := by
  obtain ⟨head, hhead, hpath⟩ := exists_defaultPath scope m stem
  have hslash : '/' ∉ fileStem m := fun hmem =>
    slash_notMem_fileName m (List.mem_append_left _ hmem)
  have hname : ∃ c ∈ fileStem m, c ≠ '.' := ⟨'_', by simp [fileStem], by decide⟩
  refine ⟨head, hhead, hpath, fun n => ?_⟩
  rw [numbered, hpath, fileName_eq, splitExtension_ending hhead hslash hname]
  simp

/-! ### The least number -/

theorem freePath_of_mem (h : path ∈ taken) : freePath taken path =
    (((List.range (taken.length + 1)).find? fun n => !taken.contains (numbered path (n + 1))).map
      fun n => numbered path (n + 1)).getD path := by
  rw [freePath, if_pos (by simpa using h)]
  dsimp only
  rw [List.find?_map]
  rfl

/-- A path that is taken is given the least number that makes it new. -/
theorem exists_freePath (h : path ∈ taken) : ∃ n, 1 ≤ n ∧ freePath taken path = numbered path n ∧
    numbered path n ∉ taken ∧ ∀ k, 1 ≤ k → k < n → numbered path k ∈ taken := by
  have hnew := freePath_notMem taken path
  rw [freePath_of_mem h] at hnew ⊢
  cases hfind : (List.range (taken.length + 1)).find?
      fun n => !taken.contains (numbered path (n + 1)) with
  | none =>
    -- only the path itself would be left, which is taken
    rw [hfind] at hnew
    exact absurd h hnew
  | some n =>
    rw [hfind] at hnew
    obtain ⟨-, -, hleast⟩ := List.find?_range_eq_some.1 hfind
    refine ⟨n + 1, by omega, rfl, hnew, fun k hk hkn => ?_⟩
    obtain ⟨k, rfl⟩ := Nat.exists_eq_add_of_le' hk
    simpa using hleast k (by omega)

/-- The path that is given: the path itself if it is new, else the path with the least number before
its ending that makes it new. -/
def Chosen (taken : List Path) (path p : Path) : Prop :=
  (path ∉ taken ∧ p = path) ∨
    (path ∈ taken ∧ ∃ base n, path = base ++ ending ∧ 1 ≤ n ∧
      p = base ++ '_' :: Nat.toDigits 10 n ++ ending ∧ p ∉ taken ∧
      ∀ k, 1 ≤ k → k < n → base ++ '_' :: Nat.toDigits 10 k ++ ending ∈ taken)

theorem Chosen.congr (h : Chosen taken path p) (htaken : ∀ q, q ∈ taken ↔ q ∈ taken') :
    Chosen taken' path p := by
  simpa only [Chosen, htaken] using h

/-- **What is given is chosen** as it should be, for every resource. -/
theorem chosen_freePath (taken : List Path) (scope : Path) (m : Meta) (stem : Path) :
    Chosen taken (defaultPath scope m stem) (freePath taken (defaultPath scope m stem)) := by
  by_cases h : defaultPath scope m stem ∈ taken
  · obtain ⟨n, hn, hfree, hnew, hleast⟩ := exists_freePath h
    obtain ⟨head, -, hpath, hnumbered⟩ := numbered_defaultPath scope m stem
    have hbase : ∀ k, numbered (defaultPath scope m stem) k =
        head ++ fileStem m ++ '_' :: Nat.toDigits 10 k ++ ending := fun k => by
      rw [hnumbered]
      simp
    refine .inr ⟨h, head ++ fileStem m, n, by rw [hpath, List.append_assoc], hn, ?_, ?_, ?_⟩
    · rw [hfree, hbase]
    · rw [hfree]
      exact hnew
    · intro k hk hkn
      rw [← hbase]
      exact hleast k hk hkn
  · refine .inl ⟨h, ?_⟩
    rw [freePath, if_neg (by simpa using h)]

/-! ### Plain names -/

/-- The characters that files are named by. -/
def IsNameChar (c : Char) : Prop :=
  ('a' ≤ c ∧ c ≤ 'z') ∨ ('0' ≤ c ∧ c ≤ '9') ∨ c = '.' ∨ c = '_' ∨ c = '-'

/-- The name of a file: plain characters, and the ending. -/
structure IsFileName (name : Path) : Prop where
  /-- All characters are plain. -/
  chars : ∀ c ∈ name, IsNameChar c
  /-- It ends as all files do. -/
  ending : ending <:+ name
  /-- It is one segment. -/
  slash : '/' ∉ name

theorem not_isNameChar_slash : ¬IsNameChar '/' := by
  unfold IsNameChar
  decide

theorem isNameChar_of_isSafe {c : Char} (h : isSafe c = true) : IsNameChar c := by
  simp only [isSafe, Bool.or_eq_true, Bool.and_eq_true, decide_eq_true_iff, beq_iff_eq] at h
  unfold IsNameChar
  tauto

theorem isNameChar_of_mem_sanitize {c : Char} {inRun : Bool} {cs : List Char}
    (h : c ∈ sanitize inRun cs) : IsNameChar c := by
  induction cs generalizing inRun with
  | nil => cases h
  | cons d cs ih =>
    rw [sanitize] at h
    split_ifs at h with hsafe
    · rcases List.mem_cons.1 h with rfl | h
      · exact isNameChar_of_isSafe hsafe
      · exact ih h
    · exact ih h
    · rcases List.mem_cons.1 h with rfl | h
      · exact .inr (.inr (.inr (.inl rfl)))
      · exact ih h

theorem isNameChar_of_mem_toDigits {c : Char} (h : c ∈ Nat.toDigits 10 n) : IsNameChar c := by
  have hdigit := Nat.isDigit_of_mem_toDigits (by decide) (by decide) h
  have hrange : 48 ≤ c.val ∧ c.val ≤ 57 := by simpa [Char.isDigit] using hdigit
  exact .inr (.inl hrange)

/-- What plain characters and the ending make is the name of a file. -/
theorem isFileName_append {name : Path} (h : ∀ c ∈ name, IsNameChar c) :
    IsFileName (name ++ ending) := by
  have hending : ∀ c ∈ ending, IsNameChar c := fun c hc =>
    isNameChar_of_isSafe (List.all_eq_true.1 (by decide : ending.all isSafe = true) c hc)
  have hchars : ∀ c ∈ name ++ ending, IsNameChar c := List.forall_mem_append.2 ⟨h, hending⟩
  exact ⟨hchars, List.suffix_append _ _, fun hslash => not_isNameChar_slash (hchars _ hslash)⟩

theorem isNameChar_of_mem_fileStem {c : Char} (h : c ∈ fileStem m) : IsNameChar c := by
  rcases List.mem_append.1 h with h | h
  · exact isNameChar_of_mem_sanitize h
  · rcases List.mem_cons.1 h with rfl | h
    · exact .inr (.inr (.inr (.inl rfl)))
    · exact isNameChar_of_mem_sanitize h

/-- **The last segment of a path that is given is the name of a file.** -/
theorem Chosen.isFileName (h : Chosen taken (defaultPath scope m stem) p) :
    IsFileName (basename p) := by
  obtain ⟨head, hhead, hpath, -⟩ := numbered_defaultPath scope m stem
  have hlast : ∀ name, (∀ c ∈ name, IsNameChar c) →
      IsFileName (basename (head ++ (name ++ ending))) := by
    intro name hname
    have hfile := isFileName_append hname
    rw [basename, splitLast_append hhead hfile.slash]
    exact hfile
  obtain ⟨-, rfl⟩ | ⟨-, base, n, hbase, -, rfl, -⟩ := h
  · rw [hpath]
    exact hlast _ fun c => isNameChar_of_mem_fileStem
  · obtain rfl : base = head ++ fileStem m := by
      rw [hpath, ← List.append_assoc] at hbase
      exact (List.append_cancel_right hbase).symm
    rw [List.append_assoc, List.append_assoc, ← List.append_assoc (fileStem m)]
    refine hlast _ (List.forall_mem_append.2 ⟨fun c => isNameChar_of_mem_fileStem, ?_⟩)
    exact List.forall_mem_cons.2 ⟨.inr (.inr (.inr (.inl rfl))), fun c => isNameChar_of_mem_toDigits⟩

/-! ### An assignment -/

theorem Chosen.notMem (h : Chosen taken path p) : p ∉ taken := by
  obtain ⟨hpath, rfl⟩ | ⟨-, -, -, -, -, -, hp, -⟩ := h
  · exact hpath
  · exact hp

/-- The resources are given paths in turn: each path is chosen among those that are not taken and
have not been given before. -/
structure GivenInTurn (scope stem : Path) (taken : List Path) (ms : List Meta) (paths : List Path) :
    Prop where
  /-- Each resource is given one path. -/
  length : paths.length = ms.length
  /-- The path is chosen by what came before. -/
  chosen : ∀ i m p, ms[i]? = some m → paths[i]? = some p →
    Chosen (taken ++ paths.take i) (defaultPath scope m stem) p

theorem givenInTurn_nil : GivenInTurn scope stem taken [] [] := ⟨rfl, nofun⟩

theorem GivenInTurn.cons {ms : List Meta} {paths : List Path}
    (hp : Chosen taken (defaultPath scope m stem) p)
    (h : GivenInTurn scope stem (p :: taken) ms paths) :
    GivenInTurn scope stem taken (m :: ms) (p :: paths) := by
  refine ⟨by simp [h.length], fun i m' p' hm' hp' => ?_⟩
  cases i with
  | zero =>
    obtain rfl := Option.some.inj hm'
    obtain rfl := Option.some.inj hp'
    simpa using hp
  | succ i =>
    refine (h.chosen i m' p' hm' hp').congr fun q => ?_
    simp [or_left_comm]

/-- Each path that is given is chosen for one of the resources. -/
theorem GivenInTurn.exists_chosen {ms : List Meta} {paths : List Path}
    (h : GivenInTurn scope stem taken ms paths) (hp : p ∈ paths) :
    ∃ before m, Chosen (taken ++ before) (defaultPath scope m stem) p := by
  obtain ⟨i, hi⟩ := List.getElem?_of_mem hp
  have hlt : i < ms.length := h.length ▸ (List.getElem?_eq_some_iff.1 hi).1
  exact ⟨_, ms[i], h.chosen i _ p (List.getElem?_eq_getElem hlt) hi⟩

namespace Assignment

variable {a a' : Assignment} {position : ℕ} {ms : List Meta}

theorem givenInTurn_placeAll (h : placeAll scope stem position ms a = .ok a') :
    ∃ paths, a'.paths = a.paths ++ paths ∧
      GivenInTurn scope stem a.taken (ms.filter fun m => m.path?.isNone) paths := by
  induction ms generalizing position a with
  | nil => exact ⟨[], by rw [← Except.ok.inj h, List.append_nil], givenInTurn_nil⟩
  | cons m ms ih =>
    unfold placeAll at h
    split at h
    · next hpath =>
      obtain ⟨paths, hpaths, hturn⟩ := ih h
      rw [List.filter_cons_of_neg (by simp [Option.ne_none_iff_isSome.2 hpath])]
      exact ⟨paths, hpaths, hturn⟩
    · next hpath =>
      obtain ⟨a₁, hplace, h⟩ := Result.ok_of_bind h
      obtain ⟨paths, hpaths, hturn⟩ := ih h
      rw [taken_place hplace] at hturn
      rw [List.filter_cons_of_pos (by simpa using hpath)]
      refine ⟨_ :: paths, ?_, hturn.cons (chosen_freePath a.taken scope m stem)⟩
      rw [hpaths, paths_place hplace, List.append_assoc]
      rfl

end Assignment

/-- **The names of new files.** If all metadata can be read, each resource without a path is given one
in turn: its default path, if no resource has that path and none has been given it, and else that path
with the least number before its ending that makes it new. So no path is given twice, and none that a
resource has; and whatever the kinds and the names are, the files have plain names. -/
theorem names_specified (scope : Path) (functionPath : Option String) (rs : List Resource)
    (supply : Supply) (hmeta : ∀ r ∈ rs, ∃ m, r.getMeta = .ok m) :
    ∃ a metas, assign scope functionPath rs supply = .ok a ∧ rs.mapM Resource.getMeta = .ok metas ∧
      let annotated := metas.filterMap fun m => m.path?.map String.toList
      GivenInTurn scope (functionStem functionPath) annotated
          (metas.filter fun m => m.path?.isNone) a.paths ∧
        a.paths.Nodup ∧ (∀ p ∈ a.paths, p ∉ annotated) ∧ ∀ p ∈ a.paths, IsFileName (basename p) := by
  obtain ⟨a, ha⟩ := (@exists_assign_iff scope functionPath rs supply).2 hmeta
  obtain ⟨metas, hmetas, hplace⟩ := assign_eq_ok_iff.1 ha
  obtain ⟨paths, hpaths, hturn⟩ := Assignment.givenInTurn_placeAll hplace
  obtain rfl : a.paths = paths := hpaths.trans (List.nil_append paths)
  refine ⟨a, metas, ha, hmetas, hturn, (distinct_assign ha).nodup, fun p hp hmem => ?_,
    fun p hp => ?_⟩
  · obtain ⟨before, m, hchosen⟩ := hturn.exists_chosen hp
    exact hchosen.notMem (List.mem_append_left before hmem)
  · obtain ⟨before, m, hchosen⟩ := hturn.exists_chosen hp
    exact hchosen.isFileName

/-- A resource of some name, and with a path if one is given. -/
def pod (id : ObjectId) (name path : String) : Resource :=
  ⟨id, [(.text "kind", .text "Pod"), (.text "metadata", .map (id + 1) [(.text "name", .text name),
    (.text "annotations", .map (id + 2) [(.text pathKey, .text path)])])]⟩

/-- Two names that differ in case only, and a path in the way of the first number. -/
def pods : List Resource := [pod 1 "Übung" "", pod 4 "übung" "", pod 7 "other" "fns/pod__bung_1.yaml"]

/-- The second of the two is given the second number. -/
theorem names_specified_pods : ∃ a, assign "fns".toList none pods 10 = .ok a ∧
    a.paths = ["fns/pod__bung.yaml".toList, "fns/pod__bung_2.yaml".toList] ∧ a.paths.Nodup ∧
      ∀ p ∈ a.paths, IsFileName (basename p) := by
  have hmeta : ∀ r ∈ pods, ∃ m, r.getMeta = .ok m := by
    have hall : ∀ r ∈ pods, r.getMeta.toOption.isSome = true := by decide +kernel
    intro r hr
    obtain ⟨m, hm⟩ := Option.isSome_iff_exists.1 (hall r hr)
    exact ⟨m, Result.ok_of_toOption hm⟩
  obtain ⟨a, metas, ha, -, -, hnodup, -, hnames⟩ :=
    names_specified "fns".toList none pods 10 hmeta
  have hpaths : (assign "fns".toList none pods 10).toOption.map Assignment.paths =
      some ["fns/pod__bung.yaml".toList, "fns/pod__bung_2.yaml".toList] := by decide +kernel
  rw [ha] at hpaths
  exact ⟨a, ha, Option.some.inj hpaths, hnodup, hnames⟩

end ScopedFn.Provenance
