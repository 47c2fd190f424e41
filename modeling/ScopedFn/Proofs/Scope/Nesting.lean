import Mathlib.Data.List.Infix
import ScopedFn.Proofs.Resource.File
import ScopedFn.Proofs.Scope.Spelling

/-!
# Nested scopes

Scopes are nested as their directories are. What is in a scope is in every scope around it, and with
a file a scope holds all files below the directory of that file. Directories with the reserved name
make no exception, although they stand for the directory that they are in.

* `Scope.isWithin_trans` : what lies within a scope lies within a scope around it;
* `Scope.IsBelow` : files below the directory of a file;
* `Scope.dirSegments_isPrefix` : the directory that counts for such a file lies below the one that
  counts for the other;
* `Scope.scopes_nested` : what is in scope, for two scopes and for two files.
-/

set_option autoImplicit false

namespace ScopedFn

namespace Path

variable {p a head name g : Path} {xs : List (List Char)}

/-- The separator behind a directory is still found if separators at the end become one. -/
theorem isPrefix_trimEnd (ha : a.getLast? ≠ some '/') (h : a ++ ['/'] <+: p) :
    a ++ ['/'] <+: trimEnd p ++ ['/'] := by
  induction p using List.reverseRecOn with
  | nil => simpa using List.prefix_nil.1 h
  | append_singleton p c ih =>
    by_cases hc : c = '/'
    · subst hc
      have htrim : trimEnd (p ++ ['/']) = trimEnd p := by simp [trimEnd]
      rw [htrim]
      rcases List.prefix_concat_iff.1 h with heq | hlonger
      · obtain rfl : a = p := List.append_cancel_right heq
        rw [trimEnd_eq_self ha]
      · exact ih hlonger
    · rw [trimEnd_eq_self (by simpa using hc)]
      exact h.trans (List.prefix_append _ _)

/-- A directory that is named below another one adds its name to the segments that are left. -/
theorem normal_append_name (hhead : IsHead head) (hname : IsName name) :
    rootSlashes (head ++ name ++ ['/']) = rootSlashes head ∧
      normalSegments (head ++ name ++ ['/']) = normalSegments head ++ [name] := by
  obtain ⟨hroot, hsegments⟩ := normalSegments_append_name hhead hname
  have hlast : (head ++ name).getLast? ≠ some '/' := by
    rw [List.getLast?_append_of_ne_nil _ hname.ne_nil]
    exact fun hl => hname.slash_notMem (List.mem_of_getLast? hl)
  have htrim : trimEnd (head ++ name ++ ['/']) = head ++ name := trimEnd_append_slash hlast
  have hne : trimEnd (head ++ name ++ ['/']) ≠ [] := by
    rw [htrim]
    exact List.append_ne_nil_of_right_ne_nil _ hname.ne_nil
  obtain ⟨hroot', hsegments'⟩ := Scope.normal_trimEnd hne
  rw [htrim] at hroot' hsegments'
  exact ⟨hroot'.symm.trans hroot, hsegments'.symm.trans hsegments⟩

/-- The directory of a file below another directory, by its segments. -/
theorem dirname_append_joinSegments (hhead : IsHead head) (hxs : ∀ x ∈ xs, IsName x) (hg : '/' ∉ g) :
    rootSlashes (dirname (head ++ joinSegments (xs ++ [g]))) = rootSlashes head ∧
      normalSegments (dirname (head ++ joinSegments (xs ++ [g]))) = normalSegments head ++ xs := by
  induction xs generalizing head with
  | nil =>
    rw [List.nil_append, joinSegments_singleton, List.append_nil]
    exact Scope.dirname_append_segment hhead hg
  | cons x xs ih =>
    obtain ⟨hx, hxs⟩ := List.forall_mem_cons.1 hxs
    obtain ⟨hroot, hsegments⟩ := normal_append_name hhead hx
    have hpath : head ++ joinSegments (x :: (xs ++ [g])) =
        head ++ x ++ ['/'] ++ joinSegments (xs ++ [g]) := by
      rw [joinSegments_cons x (by simp)]
      simp
    have hhead' : IsHead (head ++ x ++ ['/']) := .inr (by simp)
    obtain ⟨hroot', hsegments'⟩ := ih hhead' hxs
    rw [List.cons_append, hpath, hroot', hsegments', hroot, hsegments, List.append_assoc]
    exact ⟨rfl, rfl⟩

end Path

namespace Scope

open ScopedFn.Path

variable {dir scope s₁ s₂ p q : Path} {rs : List Resource} {s : Split}

/-! ### Scopes around a scope -/

theorem isWithin_iff : isWithin dir scope = true ↔
    scope = global ∨ dir = scope ∨ trimEnd scope ++ ['/'] <+: dir := by
  simp only [isWithin, Bool.or_eq_true, decide_eq_true_eq, List.isPrefixOf_iff_prefix, or_assoc]

/-- Around the global scope there is no other one. -/
theorem eq_global_of_isWithin (h : isWithin global scope = true) : scope = global := by
  obtain h | h | h := isWithin_iff.1 h
  · exact h
  · exact h.symm
  · simpa using List.prefix_nil.1 h

/-- **What lies within a scope lies within every scope around it.** -/
theorem isWithin_trans (h : isWithin dir s₁ = true) (h₁₂ : isWithin s₁ s₂ = true) :
    isWithin dir s₂ = true := by
  obtain rfl | hdir := isWithin_iff.1 h
  · rw [eq_global_of_isWithin h₁₂]
    exact h
  rw [isWithin_iff] at h₁₂ ⊢
  obtain hglobal | rfl | hbegins := h₁₂
  · exact .inl hglobal
  · exact .inr hdir
  · refine .inr (.inr ?_)
    obtain rfl | hdir := hdir
    · exact hbegins
    · obtain ⟨n, -, hlast⟩ := exists_trimEnd_append s₂
      exact (isPrefix_trimEnd hlast hbegins).trans hdir

/-- A scope around one that holds everything holds everything, unless that is the root. -/
theorem holdsAll_of_isWithin (hroot : s₁ ≠ ['/']) (h : isWithin s₁ s₂ = true)
    (hall : holdsAll s₁ = true) : holdsAll s₂ = true := by
  simp only [holdsAll, Bool.or_eq_true, decide_eq_true_eq, or_iff_left hroot] at hall
  obtain rfl | rfl := hall
  · rw [eq_global_of_isWithin h]
    rfl
  · obtain rfl | rfl | hbegins := isWithin_iff.1 h
    · rfl
    · rfl
    · -- a separator would have to begin the current directory
      have hlast : s₂.trimEnd ++ ['/'] = ['.'] := hbegins.eq_of_length_le (by simp)
      simpa using congrArg List.getLast? hlast

/-! ### What is in scope -/

theorem lies_eq_any (scope : Path) (r : Resource) :
    lies scope r = r.file?.any fun path => isWithin (resourceDir path.toList) scope := by
  unfold lies Resource.file? holds
  cases r.getMeta <;> rfl

theorem mem_inside_iff {r : Resource} (h : split scope rs false = .ok s) :
    r ∈ s.inside ↔ r ∈ rs ∧ (holdsAll scope = true ∨ lies scope r = true) := by
  obtain ⟨hall, rfl⟩ | ⟨hnot, hinside, -⟩ := split_ok h
  · exact (and_iff_left (.inl hall)).symm
  · rw [Bool.false_or] at hnot
    rw [hinside, List.mem_filter, hnot, or_iff_right Bool.false_ne_true]

/-- Of one collection, a scope around another one holds all that the other one holds. -/
theorem inside_sublist_inside {a₁ a₂ : Split} (hroot : s₁ ≠ ['/']) (h : isWithin s₁ s₂ = true)
    (h₁ : split s₁ rs false = .ok a₁) (h₂ : split s₂ rs false = .ok a₂) :
    a₁.inside.Sublist a₂.inside := by
  obtain ⟨-, rfl⟩ | ⟨hnot₂, hinside₂, -⟩ := split_ok h₂
  · obtain ⟨-, rfl⟩ | ⟨-, hinside₁, -⟩ := split_ok h₁
    · exact List.Sublist.refl rs
    · rw [hinside₁]
      exact List.filter_sublist
  · obtain ⟨hall₁, -⟩ | ⟨-, hinside₁, -⟩ := split_ok h₁
    · have hall₂ : (false || holdsAll s₂) = true := holdsAll_of_isWithin hroot h hall₁
      exact absurd (hnot₂.symm.trans hall₂) Bool.false_ne_true
    · rw [hinside₁, hinside₂]
      refine List.monotone_filter_right rs fun r hr => ?_
      rw [lies_eq_any, Option.any_eq_true] at hr ⊢
      obtain ⟨path, hpath, hwithin⟩ := hr
      exact ⟨path, hpath, isWithin_trans hwithin h⟩

/-! ### Files further down -/

/-- The second file lies in the directory of the first one, or in a directory below it that is
reached by plain names. -/
def IsBelow (p q : Path) : Prop :=
  ∃ (dir f g : Path) (xs : List (List Char)), p = dir ++ '/' :: f ∧
    q = dir ++ '/' :: joinSegments (xs ++ [g]) ∧ '/' ∉ f ∧ '/' ∉ g ∧ ∀ x ∈ xs, IsName x

/-- The directory that counts for a file further down lies below the one that counts for a file, or
is the same one. -/
theorem dirSegments_isPrefix (h : IsBelow p q) :
    rootSlashes q.dirname = rootSlashes p.dirname ∧ dirSegments p <+: dirSegments q := by
  obtain ⟨dir, f, g, xs, rfl, rfl, hf, hg, hxs⟩ := h
  have hhead : IsHead (dir ++ ['/']) := .inr (by simp)
  have hcons : ∀ rest, dir ++ '/' :: rest = dir ++ ['/'] ++ rest := by simp
  obtain ⟨hroot, hsegments⟩ := dirname_append_segment hhead hf
  obtain ⟨hroot', hsegments'⟩ := dirname_append_joinSegments hhead hxs hg
  rw [hcons f, hcons, hroot, hroot', dirSegments, dirSegments, hsegments, hsegments']
  refine ⟨rfl, ?_⟩
  -- without names between them both files are in one directory
  by_cases hnone : xs = []
  · rw [hnone, List.append_nil]
  · have hshort : ∀ ss : List (List Char),
        (if ss.getLast? = some reservedName then ss.dropLast else ss) <+: ss := fun ss => by
      split_ifs
      · exact List.dropLast_prefix ss
      · exact List.prefix_rfl
    refine (hshort _).trans ?_
    split_ifs
    · rw [List.dropLast_append_of_ne_nil hnone]
      exact List.prefix_append _ _
    · exact List.prefix_append _ _

/-- **Files below a file in scope are in scope.** -/
theorem isWithin_of_isBelow (h : IsBelow p q) (hwithin : isWithin (resourceDir p) scope = true) :
    isWithin (resourceDir q) scope = true := by
  obtain ⟨hroot, hprefix⟩ := dirSegments_isPrefix h
  rw [resourceDir_eq] at hwithin ⊢
  rw [hroot]
  exact isWithin_mono (isNormal_dirSegments p) hprefix hwithin

/-- **Scopes are nested, and closed below.** Of a collection that can be divided by both of two
scopes, of which the first lies within the second and is not the root, whatever is in the first scope
is in the second one, in the same order. And if a resource is in a scope, every resource whose file
lies below the directory of its file is in that scope, in whatever collection. -/
theorem scopes_nested :
    (∀ (s₁ s₂ : Path) (rs : List Resource) (a₁ a₂ : Split), s₁ ≠ ['/'] → isWithin s₁ s₂ = true →
      split s₁ rs false = .ok a₁ → split s₂ rs false = .ok a₂ → a₁.inside.Sublist a₂.inside) ∧
    ∀ (s : Path) (rs rs' : List Resource) (a a' : Split), split s rs false = .ok a →
      split s rs' false = .ok a' → ∀ r ∈ a.inside, ∀ r' ∈ rs', ∀ file file' : String,
        r.file? = some file → r'.file? = some file' → IsBelow file.toList file'.toList →
          r' ∈ a'.inside := by
  refine ⟨fun s₁ s₂ rs a₁ a₂ hroot h h₁ h₂ => inside_sublist_inside hroot h h₁ h₂, ?_⟩
  intro s rs rs' a a' h h' r hr r' hr' file file' hfile hfile' hbelow
  obtain ⟨-, hall | hlies⟩ := (mem_inside_iff h).1 hr
  · exact (mem_inside_iff h').2 ⟨hr', .inl hall⟩
  · refine (mem_inside_iff h').2 ⟨hr', .inr ?_⟩
    rw [lies_eq_any, hfile] at hlies
    rw [lies_eq_any, hfile']
    exact isWithin_of_isBelow hbelow hlies

/-- Two functions, one of which is kept in a directory of functions, resources that they see, and
another one further down. -/
theorem scopes_nested_apps : ∃ web app deep : Resource,
    web.file? = some "apps/web/functions/a.yaml" ∧ app.file? = some "apps/b.yaml" ∧
      deep.file? = some "apps/web/functions/x/functions/d.yaml" ∧
      functionScope (some (located 1 "apps/web/functions/fn.yaml")) = .ok "apps/web".toList ∧
      functionScope (some (located 1 "apps/fn.yaml")) = .ok "apps".toList ∧
      split "apps/web".toList [app, web] false = .ok ⟨[web], [app]⟩ ∧
      split "apps".toList [app, web] false = .ok ⟨[app, web], []⟩ ∧
      split "apps/web".toList [deep] false = .ok ⟨[deep], []⟩ ∧
      [web].Sublist [app, web] ∧ deep ∈ [deep] := by
  have hinner : split "apps/web".toList
      [located 4 "apps/b.yaml", located 1 "apps/web/functions/a.yaml"] false =
        .ok ⟨[located 1 "apps/web/functions/a.yaml"], [located 4 "apps/b.yaml"]⟩ := rfl
  have houter : split "apps".toList
      [located 4 "apps/b.yaml", located 1 "apps/web/functions/a.yaml"] false =
        .ok ⟨[located 4 "apps/b.yaml", located 1 "apps/web/functions/a.yaml"], []⟩ := rfl
  have hdeep : split "apps/web".toList
      [located 7 "apps/web/functions/x/functions/d.yaml"] false =
        .ok ⟨[located 7 "apps/web/functions/x/functions/d.yaml"], []⟩ := rfl
  have hnames : ∀ x ∈ ["x".toList, reservedName], IsName x :=
    List.forall_mem_cons.2 ⟨⟨by decide, by decide, by decide, by decide⟩,
      List.forall_mem_singleton.2 ⟨by decide, by decide, by decide, by decide⟩⟩
  have hbelow : IsBelow "apps/web/functions/a.yaml".toList
      "apps/web/functions/x/functions/d.yaml".toList :=
    ⟨"apps/web/functions".toList, "a.yaml".toList, "d.yaml".toList, _, by decide, by decide,
      by decide, by decide, hnames⟩
  exact ⟨_, _, _, rfl, rfl, rfl, by decide, by decide, hinner, houter, hdeep,
    scopes_nested.1 _ _ _ _ _ (by decide) (by decide) hinner houter,
    scopes_nested.2 _ _ _ _ _ hinner hdeep _ List.mem_cons_self _ List.mem_cons_self _ _ rfl rfl
      hbelow⟩

end Scope

end ScopedFn
