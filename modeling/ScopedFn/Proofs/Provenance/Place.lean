import Mathlib.Data.List.Forall2
import Mathlib.Data.List.TakeWhile
import ScopedFn.Proofs.Path.Relative
import ScopedFn.Proofs.Provenance.Assign
import ScopedFn.Proofs.Scope.Containment

/-!
# Where new resources are put

A new resource is given a file below the scope of the function that made it, in a directory that
is named for the function and for the namespace of the resource. The name of the file is made safe,
but the names of the directories are taken as they are. So a file stays in the scope exactly if the
names of the directories lead nowhere else.

* `Provenance.freePath_join` : looking for a free path changes the name of a file only;
* `Provenance.normalSegments_newDir` : the directory of new resources, by its segments;
* `Provenance.inside_iff_stays` : when a new resource stays in the scope.
-/

set_option autoImplicit false

namespace ScopedFn.Provenance

open ScopedFn.Path ScopedFn.Scope

variable {scope stem space dir file path : Path} {taken : List Path} {m : Meta} {n : ℕ}

/-! ### The names of files -/

theorem slash_notMem_sanitize (inRun : Bool) (cs : List Char) : '/' ∉ sanitize inRun cs := by
  induction cs generalizing inRun with
  | nil => exact List.not_mem_nil
  | cons c cs ih =>
    rw [sanitize]
    split_ifs with hsafe
    · have hc : '/' ≠ c := by
        rintro rfl
        revert hsafe
        decide
      exact List.not_mem_cons_of_ne_of_not_mem hc (ih false)
    · exact ih true
    · exact List.not_mem_cons_of_ne_of_not_mem (by decide) (ih true)

theorem slash_notMem_fileName (m : Meta) : '/' ∉ fileName m := by
  have hkind : '/' ∉ fileSegment m.kind := slash_notMem_sanitize false _
  have hname : '/' ∉ fileSegment m.name := slash_notMem_sanitize false _
  simp [fileName, hkind, hname]

theorem slash_notMem_toDigits (n : ℕ) : '/' ∉ Nat.toDigits 10 n := by
  intro hmem
  have hdigit := Nat.isDigit_of_mem_toDigits (by decide) (by decide) hmem
  revert hdigit
  decide

/-- What is appended to a directory without a separator is its file. -/
theorem exists_head (hdir : dir ≠ []) : ∃ head : Path, (head = [] ∨ head.getLast? = some '/') ∧
    ∀ file, '/' ∉ file → join dir file = head ++ file := by
  by_cases hlast : dir.getLast? = some '/'
  · refine ⟨dir, .inr hlast, fun file hfile => ?_⟩
    rw [join_of_not_isAbsolute fun h => hfile (List.mem_of_head? h), if_pos (.inr hlast)]
  · refine ⟨dir ++ ['/'], .inr (by simp), fun file hfile => ?_⟩
    rw [join_of_not_isAbsolute fun h => hfile (List.mem_of_head? h), if_neg (by simp [hdir, hlast])]
    simp

/-- An extension is cut off the name of a file only. -/
theorem splitExtension_append {head : Path} (hhead : head = [] ∨ head.getLast? = some '/')
    (hfile : '/' ∉ file) : ∃ base extension, '/' ∉ base ∧ '/' ∉ extension ∧
      splitExtension (head ++ file) = (head ++ base, extension) := by
  rw [splitExtension, splitLast_append hhead hfile]
  dsimp only
  split_ifs
  · refine ⟨_, _, fun hmem => hfile (List.mem_of_mem_take hmem), ?_, rfl⟩
    refine List.not_mem_cons_of_ne_of_not_mem (by decide) fun hmem => hfile ?_
    exact List.mem_reverse.1 (List.takeWhile_subset _ (List.mem_reverse.1 hmem))
  · exact ⟨file, [], hfile, List.not_mem_nil, rfl⟩

/-- A number changes the name of a file only. -/
theorem numbered_join (hdir : dir ≠ []) (hfile : '/' ∉ file) (n : ℕ) :
    ∃ file', '/' ∉ file' ∧ numbered (join dir file) n = join dir file' := by
  obtain ⟨head, hhead, hjoin⟩ := exists_head hdir
  obtain ⟨base, extension, hbase, hextension, hsplit⟩ := splitExtension_append hhead hfile
  have hfile' : '/' ∉ base ++ '_' :: Nat.toDigits 10 n ++ extension := by
    simp [hbase, hextension, slash_notMem_toDigits]
  refine ⟨_, hfile', ?_⟩
  rw [hjoin file hfile, hjoin _ hfile', numbered, hsplit]
  simp

/-- Looking for a free path changes the name of a file only. -/
theorem freePath_join (hdir : dir ≠ []) (hfile : '/' ∉ file) (taken : List Path) :
    ∃ file', '/' ∉ file' ∧ freePath taken (join dir file) = join dir file' := by
  unfold freePath
  split
  · dsimp only
    cases hfind : ((List.range (taken.length + 1)).map fun n => numbered (join dir file) (n + 1)).find?
        fun p => !taken.contains p with
    | none => exact ⟨file, hfile, rfl⟩
    | some p =>
      obtain ⟨n, -, rfl⟩ := List.mem_map.1 (List.mem_of_find?_eq_some hfind)
      exact numbered_join hdir hfile (n + 1)
  · exact ⟨file, hfile, rfl⟩

/-! ### The directory -/

/-- The directory of new resources: a scope, and below it the directories for a function and a
namespace. -/
def newDir (scope stem space : Path) : Path := ([stem, space].filter (· != [])).foldl join scope

theorem defaultPath_eq (hscope : scope ≠ []) :
    defaultPath scope m stem = join (newDir scope stem m.space.toList) (fileName m) := by
  simp [defaultPath, newDir, hscope, List.foldl_append]

theorem slash_notMem_functionStem (functionPath : Option String) : '/' ∉ functionStem functionPath := by
  cases functionPath with
  | none => exact List.not_mem_nil
  | some path =>
    have hbase : '/' ∉ basename path.toList := fun hmem => by
      simpa using List.mem_takeWhile_imp (List.mem_reverse.1 hmem)
    obtain ⟨base, extension, hbase', -, hsplit⟩ := splitExtension_append (.inl rfl) hbase
    rw [functionStem, ← List.nil_append (basename path.toList), hsplit]
    exact hbase'

/-- A directory with another one below it, unless that has no name. -/
def below (dir part : Path) : Path := if part = [] then dir else join dir part

theorem newDir_eq (scope stem space : Path) : newDir scope stem space = below (below scope stem) space := by
  unfold newDir below
  by_cases hstem : stem = [] <;> by_cases hspace : space = [] <;> simp [hstem, hspace]

theorem below_relative {part : Path} (hne : dir ≠ []) (hdir : ¬ IsAbsolute dir)
    (hpart : ¬ IsAbsolute part) : below dir part ≠ [] ∧ ¬ IsAbsolute (below dir part) ∧
      normalSegments (below dir part) = follow (normalSegments dir) (segments part) := by
  unfold below
  split_ifs with hempty
  · -- no segment is followed
    subst hempty
    exact ⟨hne, hdir, (follow_nil _).symm⟩
  · exact ⟨join_ne_nil hne, not_isAbsolute_join hdir hpart, normalSegments_join_relative hdir hne hpart⟩

/-- **The directory of new resources.** Where nothing is absolute, it is found from the scope by the
names of the function and of the namespace. -/
theorem normalSegments_newDir (hne : scope ≠ []) (hscope : ¬ IsAbsolute scope) (hstem : '/' ∉ stem)
    (hspace : ¬ IsAbsolute space) :
    newDir scope stem space ≠ [] ∧ ¬ IsAbsolute (newDir scope stem space) ∧
      normalSegments (newDir scope stem space) =
        follow (normalSegments scope) (stem :: segments space) := by
  obtain ⟨hne₁, hrel₁, hseg₁⟩ := below_relative hne hscope fun h => hstem (List.mem_of_head? h)
  obtain ⟨hne₂, hrel₂, hseg₂⟩ := below_relative hne₁ hrel₁ hspace
  have hsegments : segments stem = [stem] := Text.splitOn_eq_singleton hstem
  rw [newDir_eq]
  refine ⟨hne₂, hrel₂, ?_⟩
  rw [hseg₂, hseg₁, hsegments, ← follow_append, List.singleton_append]

/-- An absolute namespace is the directory. -/
theorem newDir_of_isAbsolute (hspace : IsAbsolute space) : newDir scope stem space = space := by
  have hne : space ≠ [] := by
    rintro rfl
    simp [IsAbsolute] at hspace
  rw [newDir_eq, below, if_neg hne]
  exact if_pos hspace

/-! ### Staying in the scope -/

/-- The file is named by a relative path, and lies in the scope. -/
def Inside (scope path : Path) : Prop := ¬ IsAbsolute path ∧ isWithin (resourceDir path) scope = true

/-- The names of a function and of a namespace lead from the scope to the scope or below it, and not
to the scope itself if its own name is reserved. -/
def Stays (scope stem space : Path) : Prop :=
  ¬ IsAbsolute space ∧ segments scope <+: follow (segments scope) (stem :: segments space) ∧
    (follow (segments scope) (stem :: segments space) = segments scope →
      (segments scope).getLast? ≠ some reservedName)

instance (scope stem space : Path) : Decidable (Stays scope stem space) :=
  inferInstanceAs (Decidable (_ ∧ _))

/-- A directory that gives way to its parent stays below a place unless it is that place. -/
theorem prefix_lifted_iff {ss ds : List (List Char)} {name : List Char} (hss : ss ≠ []) :
    ss <+: (if ds.getLast? = some name then ds.dropLast else ds) ↔
      ss <+: ds ∧ (ds = ss → ss.getLast? ≠ some name) := by
  split_ifs with hlast
  · constructor
    · intro h
      refine ⟨h.trans (List.dropLast_prefix ds), ?_⟩
      rintro rfl
      -- the parent is shorter
      have hlength := h.length_le
      rw [List.length_dropLast] at hlength
      have hpos := List.length_pos_iff.2 hss
      omega
    · rintro ⟨⟨ts, rfl⟩, hkept⟩
      by_cases hts : ts = []
      · subst hts
        rw [List.append_nil] at hlast hkept
        exact absurd hlast (hkept rfl)
      · rw [List.dropLast_append_of_ne_nil hts]
        exact List.prefix_append ss _
  · refine (and_iff_left ?_).symm
    rintro rfl
    exact hlast

theorem isAbsolute_join {a b : Path} (ha : IsAbsolute a) (hb : ¬ IsAbsolute b) : IsAbsolute (join a b) := by
  obtain ⟨rest, rfl⟩ := isAbsolute_iff.1 ha
  rw [join_of_not_isAbsolute hb]
  split_ifs <;> rfl

/-- A relative scope is the path of normal segments. -/
theorem exists_segments (hdir : ∃ file, scope = resourceDir file) (hscope : ¬ IsAbsolute scope)
    (hne : scope ≠ global) : ∃ ss, scope = ofSegments 0 ss ∧ IsNormal false ss ∧ ss ≠ [] := by
  obtain ⟨file, rfl⟩ := hdir
  obtain ⟨heq, hnormal⟩ := resourceDir_of_relative (.inr hscope)
  refine ⟨dirSegments file, heq, hnormal, fun hss => hne ?_⟩
  rw [heq, hss]
  rfl

/-- **When a new resource stays in the scope.** It does so exactly if the names of its directories
lead nowhere else, whatever its file is called and whichever paths are taken. -/
theorem inside_freePath_iff (hdir : ∃ file, scope = resourceDir file) (hscope : ¬ IsAbsolute scope)
    (hne : scope ≠ global) (hstem : '/' ∉ stem) :
    Inside scope (freePath taken (defaultPath scope m stem)) ↔ Stays scope stem m.space.toList := by
  obtain ⟨ss, rfl, hnormal, hss⟩ := exists_segments hdir hscope hne
  rw [defaultPath_eq hne]
  by_cases hspace : IsAbsolute m.space.toList
  · -- the path is absolute as well
    have hspace_ne : m.space.toList ≠ [] := fun h => by simp [h, IsAbsolute] at hspace
    rw [newDir_of_isAbsolute hspace]
    obtain ⟨name, hname, hpath⟩ := freePath_join hspace_ne (slash_notMem_fileName m) taken
    have habs : IsAbsolute (join m.space.toList name) :=
      isAbsolute_join hspace fun h => hname (List.mem_of_head? h)
    rw [hpath]
    exact iff_of_false (fun h => h.1 habs) fun h => h.1 hspace
  · obtain ⟨hdir_ne, hdir, hfollow⟩ := normalSegments_newDir hne hscope hstem hspace
    obtain ⟨name, hname, hpath⟩ := freePath_join hdir_ne (slash_notMem_fileName m) taken
    have hrel : ¬ IsAbsolute (join (newDir (ofSegments 0 ss) stem m.space.toList) name) :=
      not_isAbsolute_join hdir fun h => hname (List.mem_of_head? h)
    obtain ⟨hpathDir, hpathNormal⟩ := resourceDir_of_relative (.inl hrel)
    have hwithin := @isWithin_ofSegments 0 0 ss _ _ _ hnormal hss hpathNormal
    have hsegments : segments (ofSegments 0 ss) = ss :=
      segments_joinSegments hss fun s hs => (hnormal.of_mem hs).2
    rw [hpath, Inside, and_iff_right hrel, hpathDir, hwithin, and_iff_right rfl, dirSegments,
      normalSegments_dirname_join hdir hdir_ne hname, hfollow,
      normalSegments_ofSegments (Nat.zero_le 2) hnormal]
    rw [prefix_lifted_iff hss, Stays, hsegments, and_iff_right hspace]

/-! ### All new resources -/

namespace Assignment

variable {a a' : Assignment} {position : ℕ} {key value : String} {ms : List Meta}

theorem paths_annotate (h : a.annotate position key value = .ok a') : a'.paths = a.paths := by
  unfold annotate at h
  split at h
  · exact Except.ok.inj h ▸ rfl
  · obtain ⟨e, -, h⟩ := Result.ok_of_bind h
    exact Except.ok.inj h ▸ rfl

theorem paths_place (h : a.place position m path = .ok a') :
    a'.paths = a.paths ++ [freePath a.taken path] := by
  rw [place_eq] at h
  obtain ⟨a₁, hpath, h⟩ := Result.ok_of_bind h
  have hpaths : a₁.paths = a.paths ++ [freePath a.taken path] := paths_annotate hpath
  split at h
  · rw [paths_annotate h, hpaths]
  · exact Except.ok.inj h ▸ hpaths

/-- Each resource without a path gets one of its own, in their order. -/
theorem paths_placeAll (h : placeAll scope stem position ms a = .ok a') :
    ∃ paths, a'.paths = a.paths ++ paths ∧
      List.Forall₂ (fun m path => ∃ taken, path = freePath taken (defaultPath scope m stem))
        (ms.filter fun m => m.path?.isNone) paths := by
  induction ms generalizing position a with
  | nil => exact ⟨[], by rw [← Except.ok.inj h, List.append_nil], .nil⟩
  | cons m ms ih =>
    unfold placeAll at h
    split at h
    · rename_i hpath
      obtain ⟨paths, hpaths, hall⟩ := ih h
      rw [List.filter_cons_of_neg (by simp [Option.ne_none_iff_isSome.2 hpath])]
      exact ⟨paths, hpaths, hall⟩
    · rename_i hpath
      obtain ⟨a₁, hplace, h⟩ := Result.ok_of_bind h
      obtain ⟨paths, hpaths, hall⟩ := ih h
      rw [List.filter_cons_of_pos (by simpa using hpath)]
      exact ⟨_ :: paths, by rw [hpaths, paths_place hplace, List.append_assoc]; rfl, .cons ⟨_, rfl⟩ hall⟩

end Assignment

/-- **Which new resources stay in the scope.** The files that an assignment gives to the resources
without a path are in the scope exactly where the names of their directories lead nowhere else. -/
theorem inside_paths_iff {functionPath : Option String} {rs : List Resource} {supply : Supply}
    {a : Assignment} (hdir : ∃ file, scope = resourceDir file) (hscope : ¬ IsAbsolute scope)
    (hne : scope ≠ global) (h : assign scope functionPath rs supply = .ok a) :
    ∃ metas, rs.mapM Resource.getMeta = .ok metas ∧
      List.Forall₂ (fun m path =>
          Inside scope path ↔ Stays scope (functionStem functionPath) m.space.toList)
        (metas.filter fun m => m.path?.isNone) a.paths := by
  obtain ⟨metas, hmetas, hplace⟩ := assign_eq_ok_iff.1 h
  obtain ⟨paths, hpaths, hall⟩ := Assignment.paths_placeAll hplace
  refine ⟨metas, hmetas, ?_⟩
  have hstart : a.paths = paths := hpaths.trans (List.nil_append paths)
  rw [hstart]
  refine hall.imp fun m path hpath => ?_
  obtain ⟨taken, rfl⟩ := hpath
  exact inside_freePath_iff hdir hscope hne (slash_notMem_functionStem functionPath)

end ScopedFn.Provenance
