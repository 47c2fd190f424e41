import ScopedFn.Proofs.Resource.Trail

/-!
# Where an annotation is written

A path of keys leads through the maps that are there and ends in the last one; what remains of the
path is made when a key is set. This map and the rest of the path are the site of the key. An edit
at one site shows at the end of every path that has this site, and at the end of no other path.

* `MapEntries.site` : where a key at the end of a path is set;
* `MapEntries.field_entriesAfter`, `MapEntries.site_entriesAfter` : paths that do not pass the site;
* `MapEntries.field_editAt`, `MapEntries.site_editAt` : paths that end there;
* `Resource.valueOn_edit`, `Resource.siteOn_edit_eq_iff` : what becomes of resources of which one is
  annotated.
-/

set_option autoImplicit false

namespace ScopedFn

namespace MapEntries

open Value (entriesAfter)

variable {fresh id id' : ObjectId} {key part : String} {v w : Value} {parts route : List String}
  {es es' inner : MapEntries} {e : Edit}

/-- What remains of a path of keys behind the last map that is there. -/
def remainder : List String → MapEntries → List String
  | [], _ => []
  | part :: parts, es =>
    match mapAt? es part with
    | some m => remainder parts m.2
    | none => part :: parts

/-- The last map on a path of keys, and what remains of the path there. -/
def site (parts : List String) (id : ObjectId) (es : MapEntries) : ObjectId × List String :=
  (innermost parts id es, remainder parts es)

/-- The edit that sets a key at a site: in the map if nothing remains of the path, and else in new
maps, with identities from the given one on. -/
def editAt (fresh : ObjectId) (key : String) (v : Value) : ObjectId × List String → Edit
  | (target, []) => ⟨target, .put (.text key) v⟩
  | (target, part :: parts) =>
    ⟨target, .put (.text part) (.map fresh (putIn (fresh + 1) key v parts []))⟩

/-- The site when a key has been set there. -/
def advance (fresh : ObjectId) : ObjectId × List String → ObjectId × List String
  | (target, []) => (target, [])
  | (_, _ :: parts) => (fresh + parts.length, [])

theorem site_of_some {m : ObjectId × MapEntries} (hat : mapAt? es part = some m)
    (parts : List String) (id : ObjectId) : site (part :: parts) id es = site parts m.1 m.2 := by
  rw [site, innermost, remainder, hat]
  rfl

theorem site_of_none (hat : mapAt? es part = none) (parts : List String) (id : ObjectId) :
    site (part :: parts) id es = (id, part :: parts) := by
  rw [site, innermost, remainder, hat]

theorem remainder_suffix (parts : List String) (es : MapEntries) :
    remainder parts es <:+ parts := by
  induction parts generalizing es with
  | nil => exact List.suffix_rfl
  | cons part parts ih =>
    rw [remainder]
    cases mapAt? es part with
    | none => exact List.suffix_rfl
    | some m => exact (ih m.2).trans (List.suffix_cons part parts)

/-- Setting a key at the end of a path is an edit at the site of the path. -/
theorem exists_editIn_eq (fresh : ObjectId) (key : String) (v : Value) (parts : List String)
    (id : ObjectId) (es : MapEntries) :
    ∃ fresh', fresh ≤ fresh' ∧
      editIn fresh key v parts id es = editAt fresh' key v (site parts id es) := by
  induction parts generalizing fresh id es with
  | nil => exact ⟨fresh, le_rfl, rfl⟩
  | cons part parts ih =>
    rw [editIn]
    cases hat : mapAt? es part with
    | none => exact ⟨fresh, le_rfl, by rw [site_of_none hat]; rfl⟩
    | some m =>
      obtain ⟨fresh', hle, heq⟩ := ih (fresh + 1) m.1 m.2
      exact ⟨fresh', le_trans (Nat.le_succ fresh) hle, by rw [site_of_some hat]; exact heq⟩

/-- From every map on the way, the rest of the path has the same site. -/
theorem site_of_mem_trail (h : (id', es', route) ∈ trail parts id es) :
    site parts id es = site route id' es' := by
  induction parts generalizing id es with
  | nil =>
    obtain ⟨rfl, rfl, rfl⟩ : id' = id ∧ es' = es ∧ route = [] := by simpa [trail] using h
    rfl
  | cons part parts ih =>
    rw [trail] at h
    obtain heq | hmem := List.mem_cons.1 h
    · obtain ⟨rfl, rfl, rfl⟩ : id' = id ∧ es' = es ∧ route = part :: parts := by simpa using heq
      rfl
    · cases hat : mapAt? es part with
      | none =>
        rw [hat] at hmem
        exact absurd hmem List.not_mem_nil
      | some m =>
        rw [hat] at hmem
        rw [site_of_some hat, ih hmem]

/-- The way ends at the site. -/
theorem exists_mem_trail (parts : List String) (id : ObjectId) (es : MapEntries) :
    ∃ es', ((site parts id es).1, es', (site parts id es).2) ∈ trail parts id es := by
  induction parts generalizing id es with
  | nil => exact ⟨es, List.mem_cons_self⟩
  | cons part parts ih =>
    cases hat : mapAt? es part with
    | none =>
      rw [site_of_none hat]
      exact ⟨es, List.mem_cons_self⟩
    | some m =>
      obtain ⟨es', hmem⟩ := ih m.1 m.2
      rw [site_of_some hat, trail, hat]
      exact ⟨es', List.mem_cons_of_mem _ hmem⟩

/-- The maps on the way stand in the whole map. -/
theorem stop_mem_maps {t : ObjectId × MapEntries × List String} (h : t ∈ trail parts id es) :
    stop t ∈ (Value.map id es).maps := by
  induction parts generalizing id es with
  | nil =>
    obtain rfl := List.mem_singleton.1 h
    exact List.mem_cons_self
  | cons part parts ih =>
    rw [trail] at h
    obtain rfl | hmem := List.mem_cons.1 h
    · exact List.mem_cons_self
    · cases hat : mapAt? es part with
      | none =>
        rw [hat] at hmem
        exact absurd hmem List.not_mem_nil
      | some m =>
        rw [hat] at hmem
        refine List.mem_cons_of_mem _ (Value.maps_get_subset es part ?_)
        rw [mapAt?_eq_some.1 hat]
        exact ih hmem

/-! ### Edits that do not lead on -/

/-- Under a key that is not the one that is set in this map, there is what was there, edited. -/
theorem get_entriesAfter_of_ne {k : String} (he : e.change = .put (.text k) w)
    (h : id = e.target → k ≠ key) : get (entriesAfter e id es) key = (get es key).edit e := by
  unfold entriesAfter
  split_ifs with hid
  · rw [he, Change.apply, get_put, if_neg (h hid), get_editEntries]
  · exact get_editEntries e es key

theorem mapAt?_of_edit (hget : get es' part = (get es part).edit e) :
    mapAt? es' part = (mapAt? es part).map fun m => (m.1, entriesAfter e m.1 m.2) := by
  rw [mapAt?, mapAt?, hget]
  cases get es part <;> rfl

/-- A key that is set in a map on the way does not lead on, nor is it the one at the end. -/
def Passes (target : ObjectId) (k key : String) (parts : List String) (id : ObjectId)
    (es : MapEntries) : Prop :=
  ∀ t ∈ trail parts id es, t.1 = target → (t.2.2 ++ [key]).head? ≠ some k

theorem Passes.get_eq {k : String} (h : Passes e.target k key (part :: parts) id es)
    (he : e.change = .put (.text k) w) :
    get (entriesAfter e id es) part = (get es part).edit e := by
  refine get_entriesAfter_of_ne he fun hid heq => ?_
  exact h _ List.mem_cons_self hid (congrArg some heq.symm)

theorem Passes.tail {target : ObjectId} {k : String} {m : ObjectId × MapEntries}
    (h : Passes target k key (part :: parts) id es) (hat : mapAt? es part = some m) :
    Passes target k key parts m.1 m.2 := by
  intro t ht
  refine h t ?_
  rw [trail, hat]
  exact List.mem_cons_of_mem _ ht

theorem field_entriesAfter {k : String} (he : e.change = .put (.text k) w)
    (h : Passes e.target k key parts id es) :
    (Value.map id (entriesAfter e id es)).field (parts ++ [key]) =
      ((Value.map id es).field (parts ++ [key])).edit e := by
  induction parts generalizing id es with
  | nil =>
    refine get_entriesAfter_of_ne he fun hid heq => ?_
    exact h _ List.mem_cons_self hid (congrArg some heq.symm)
  | cons part parts ih =>
    rw [List.cons_append, Value.field, Value.field, h.get_eq he]
    cases hat : mapAt? es part with
    | none =>
      have hat' := mapAt?_of_edit (h.get_eq he)
      rw [hat, Option.map_none] at hat'
      rw [← h.get_eq he, field_missing hat' _ (by simp), field_missing hat _ (by simp)]
      rfl
    | some m =>
      rw [mapAt?_eq_some.1 hat]
      exact ih (h.tail hat)

theorem site_entriesAfter {k : String} (he : e.change = .put (.text k) w)
    (h : Passes e.target k key parts id es) :
    site parts id (entriesAfter e id es) = site parts id es := by
  induction parts generalizing id es with
  | nil => rfl
  | cons part parts ih =>
    have hat' := mapAt?_of_edit (h.get_eq he)
    cases hat : mapAt? es part with
    | none =>
      rw [hat, Option.map_none] at hat'
      rw [site_of_none hat, site_of_none hat']
    | some m =>
      rw [hat, Option.map_some] at hat'
      rw [site_of_some hat, site_of_some hat']
      exact ih (h.tail hat)

/-! ### Edits that lead on -/

theorem target_editAt (fresh : ObjectId) (key : String) (v : Value) (s : ObjectId × List String) :
    (editAt fresh key v s).target = s.1 := by
  obtain ⟨target, _ | ⟨part, parts⟩⟩ := s <;> rfl

/-- The key that is set is the one that leads on. -/
theorem exists_change_editAt (fresh : ObjectId) (key : String) (v : Value)
    (s : ObjectId × List String) :
    ∃ k w, (editAt fresh key v s).change = .put (.text k) w ∧ (s.2 ++ [key]).head? = some k := by
  obtain ⟨target, _ | ⟨part, parts⟩⟩ := s <;> exact ⟨_, _, rfl, rfl⟩

/-- What remains of a path at a site is told from the rests of the path before by the key that leads
on. -/
def Apart (key key' : String) (parts remains : List String) : Prop :=
  ∀ route, route <:+ parts → route ≠ remains →
    (route ++ [key']).head? ≠ (remains ++ [key]).head?

theorem Apart.tail {key' : String} {remains : List String}
    (h : Apart key key' (part :: parts) remains) : Apart key key' parts remains :=
  fun route hroute => h route (hroute.trans (List.suffix_cons part parts))

/-- On the way to a site, a map keeps what it has under the key that leads there. -/
theorem get_editAt_of_some {key' : String} {m : ObjectId × MapEntries} {s : ObjectId × List String}
    (hs : site parts m.1 m.2 = s) (hapart : Apart key key' (part :: parts) s.2) (fresh : ObjectId)
    (v : Value) (id : ObjectId) :
    get (entriesAfter (editAt fresh key v s) id es) part =
      (get es part).edit (editAt fresh key v s) := by
  obtain ⟨k, w, hchange, hhead⟩ := exists_change_editAt fresh key v s
  refine get_entriesAfter_of_ne hchange fun _ hk => ?_
  have hlength : s.2.length ≤ parts.length := hs ▸ (remainder_suffix parts m.2).length_le
  have hne : part :: parts ≠ s.2 := fun heq => by
    rw [← heq, List.length_cons] at hlength
    exact absurd hlength (Nat.not_succ_le_self _)
  exact hapart _ List.suffix_rfl hne (by rw [hhead, hk]; rfl)

theorem mapAt?_editAt_of_none (fresh : ObjectId) (key : String) (v : Value) (part : String)
    (parts : List String) (id : ObjectId) (es : MapEntries) :
    mapAt? (entriesAfter (editAt fresh key v (id, part :: parts)) id es) part =
      some (fresh, putIn (fresh + 1) key v parts []) := by
  have hafter : entriesAfter (editAt fresh key v (id, part :: parts)) id es =
      Entries.put Atom.same (.text part) (.map fresh (putIn (fresh + 1) key v parts []))
        (Value.editEntries (editAt fresh key v (id, part :: parts)) es) := if_pos rfl
  rw [hafter, mapAt?_put]

/-- At the end of a path to the site stands what is set there; another key in the same map keeps its
value. -/
theorem field_editAt {key' : String} (hapart : Apart key key' parts (site parts id es).2)
    (fresh : ObjectId) (v : Value) :
    (Value.map id (entriesAfter (editAt fresh key v (site parts id es)) id es)).field
        (parts ++ [key']) =
      if key = key' then v
      else ((Value.map id es).field (parts ++ [key'])).edit
        (editAt fresh key v (site parts id es)) := by
  induction parts generalizing id es with
  | nil =>
    have hafter : entriesAfter (editAt fresh key v (site [] id es)) id es =
        Entries.put Atom.same (.text key) v
          (Value.editEntries (editAt fresh key v (site [] id es)) es) := if_pos rfl
    rw [hafter, List.nil_append, Value.field, get_put, get_editEntries]
    split_ifs <;> rfl
  | cons part parts ih =>
    rw [List.cons_append, Value.field, Value.field]
    cases hat : mapAt? es part with
    | none =>
      rw [site_of_none hat, mapAt?_eq_some.1 (mapAt?_editAt_of_none fresh key v part parts id es),
        field_missing hat _ (by simp)]
      split_ifs with hkey
      · rw [← hkey, field_putIn]
      · rw [field_putIn_ne hkey, field_empty _ _ (by simp)]
        rfl
    | some m =>
      rw [site_of_some hat] at hapart ⊢
      rw [get_editAt_of_some rfl hapart, mapAt?_eq_some.1 hat]
      exact ih hapart.tail

/-- The maps that are made lead on to the last one of them. -/
theorem site_putIn (fresh : ObjectId) (key : String) (v : Value) (parts : List String) :
    site parts fresh (putIn (fresh + 1) key v parts []) = (fresh + parts.length, []) := by
  induction parts generalizing fresh with
  | nil => rfl
  | cons part parts ih =>
    have hat : mapAt? (putIn (fresh + 1) key v (part :: parts) []) part =
        some (fresh + 1, putIn (fresh + 1 + 1) key v parts []) := mapAt?_put _ _ _ _
    rw [site_of_some hat, ih, List.length_cons, Nat.add_right_comm, Nat.add_assoc]

/-- All paths to the site lead to the same map afterwards. -/
theorem site_editAt (hapart : Apart key key parts (site parts id es).2) (fresh : ObjectId)
    (v : Value) :
    site parts id (entriesAfter (editAt fresh key v (site parts id es)) id es) =
      advance fresh (site parts id es) := by
  induction parts generalizing id es with
  | nil => rfl
  | cons part parts ih =>
    cases hat : mapAt? es part with
    | none =>
      rw [site_of_none hat, site_of_some (mapAt?_editAt_of_none fresh key v part parts id es)]
      exact site_putIn fresh key v parts
    | some m =>
      rw [site_of_some hat] at hapart ⊢
      have hget : get (entriesAfter (editAt fresh key v (site parts m.1 m.2)) id es) part = _ :=
        get_editAt_of_some rfl hapart fresh v id
      have hat' := mapAt?_of_edit hget
      rw [hat, Option.map_some] at hat'
      rw [site_of_some hat']
      exact ih hapart.tail

end MapEntries

namespace Resource

open MapEntries

variable {q q' r : Resource} {e : Edit} {fresh : ObjectId} {key key' value : String}
  {parts parts' route remains : List String} {ms : List (ObjectId × MapEntries)}

/-- Where a key at the end of a path of keys is set in a resource. -/
def siteOn (parts : List String) (r : Resource) : ObjectId × List String :=
  MapEntries.site parts r.id r.entries

/-- Where the annotations of a resource are set. -/
def site (r : Resource) : ObjectId × List String := r.siteOn annotationPath

/-- The value of a key at the end of a path of keys. -/
def valueOn (parts : List String) (key : String) (r : Resource) : Value :=
  r.toValue.field (parts ++ [key])

theorem siteOn_mem_objects (parts : List String) (r : Resource) :
    (r.siteOn parts).1 ∈ r.toValue.objects :=
  innermost_mem_objects parts r.id r.entries

/-- Where annotations are looked for, the key that leads on tells what remains of the way. -/
theorem apart_annotationPath (hkey : key ∈ readerKeys) (hkey' : key' ∈ readerKeys)
    (hparts : parts <:+ annotationPath) (hremains : remains <:+ annotationPath) :
    Apart key key' parts remains := by
  intro route hroute hne hhead
  have hsuffix := hroute.trans hparts
  rw [annotationPath, List.suffix_cons_iff, List.suffix_cons_iff, List.suffix_nil]
    at hsuffix hremains
  simp only [readerKeys, List.mem_cons, List.not_mem_nil, or_false] at hkey hkey'
  obtain rfl | rfl | rfl := hsuffix <;> obtain rfl | rfl | rfl := hremains <;>
    first
      | exact hne rfl
      | obtain rfl | rfl := hkey <;> obtain rfl | rfl := hkey' <;> revert hhead <;> decide

/-- Setting an annotation is an edit at the site of the resource. -/
theorem exists_annotationEdit_eq (h : r.annotationEdit fresh (fresh + 1) key value = .ok e) :
    ∃ fresh', fresh ≤ fresh' ∧ e = editAt fresh' key (.text value) r.site := by
  rw [annotationEdit_eq h]
  exact exists_editIn_eq fresh key (.text value) annotationPath r.id r.entries

/-- A path that passes the site of a resource ends there, since a map has one content. -/
theorem passes_of_siteOn_ne (hms : Coherent ms) (hq : q.toValue.maps ⊆ ms)
    (hr : r.toValue.maps ⊆ ms) (hkey : key ∈ readerKeys) (hkey' : key' ∈ readerKeys)
    (hparts : parts <:+ annotationPath) (hne : q.siteOn parts ≠ r.site) {k : String}
    (hk : (r.site.2 ++ [key]).head? = some k) :
    Passes r.site.1 k key' parts q.id q.entries := by
  rintro ⟨target, es, route⟩ hmem rfl hhead
  obtain ⟨es', hend⟩ := exists_mem_trail annotationPath r.id r.entries
  have hremains : r.site.2 <:+ annotationPath := suffix_of_mem_trail hend
  have hroute : route = r.site.2 := by
    by_contra hother
    refine apart_annotationPath hkey hkey' hparts hremains route (suffix_of_mem_trail hmem) hother
      ?_
    rw [hk]
    exact hhead
  subst hroute
  obtain ⟨-, rfl⟩ := Prod.mk.inj (hms _ (hq (stop_mem_maps hmem)) _ (hr (stop_mem_maps hend)) rfl)
  exact hne ((site_of_mem_trail hmem).trans (site_of_mem_trail hend).symm)

section

variable (h : r.annotationEdit fresh (fresh + 1) key value = .ok e) (hkey : key ∈ readerKeys)
  (hms : Coherent ms) (hr : r.toValue.maps ⊆ ms)

include h hkey hms hr

/-- **What an annotation shows.** It is found at the end of every path that has the site of the
resource that is annotated; what else is found at the end of paths stays. -/
theorem valueOn_edit (hq : q.toValue.maps ⊆ ms) (hparts : parts <:+ annotationPath)
    (hkey' : key' ∈ readerKeys) : (q.edit e).valueOn parts key' =
      if q.siteOn parts = r.site ∧ key = key' then .text value
      else (q.valueOn parts key').edit e := by
  obtain ⟨fresh', -, rfl⟩ := exists_annotationEdit_eq h
  have hremains : r.site.2 <:+ annotationPath := remainder_suffix _ _
  rw [valueOn, toValue_edit]
  by_cases hsite : q.siteOn parts = r.site
  · rw [← hsite] at hremains ⊢
    simp only [true_and]
    exact field_editAt (apart_annotationPath hkey hkey' hparts hremains) fresh' _
  · rw [if_neg fun hand => hsite hand.1]
    obtain ⟨k, w, hchange, hk⟩ := exists_change_editAt fresh' key (.text value) r.site
    refine field_entriesAfter hchange ?_
    rw [target_editAt]
    exact passes_of_siteOn_ne hms hq hr hkey hkey' hparts hsite hk

/-- All paths to the site of the resource lead to one map afterwards, which was there or has been
made; other paths keep their sites. -/
theorem exists_siteOn_edit : ∃ s, (s = r.site ∨ fresh ≤ s.1) ∧
    ∀ {q : Resource} {parts}, q.toValue.maps ⊆ ms → parts <:+ annotationPath →
      (q.edit e).siteOn parts = if q.siteOn parts = r.site then s else q.siteOn parts := by
  obtain ⟨fresh', hle, rfl⟩ := exists_annotationEdit_eq h
  have hremains : r.site.2 <:+ annotationPath := remainder_suffix _ _
  refine ⟨advance fresh' r.site, ?_, fun {q parts} hq hparts => ?_⟩
  · rcases r.site with ⟨target, _ | ⟨part, route⟩⟩
    · exact .inl rfl
    · exact .inr (le_trans hle (Nat.le_add_right _ _))
  · by_cases hsite : q.siteOn parts = r.site
    · rw [if_pos hsite]
      rw [← hsite] at hremains ⊢
      exact site_editAt (apart_annotationPath hkey hkey hparts hremains) fresh' _
    · rw [if_neg hsite]
      obtain ⟨k, w, hchange, hk⟩ := exists_change_editAt fresh' key (.text value) r.site
      have hpasses : Passes (editAt fresh' key (.text value) r.site).target k key parts q.id
          q.entries := by
        rw [target_editAt]
        exact passes_of_siteOn_ne hms hq hr hkey hkey hparts hsite hk
      exact site_entriesAfter hchange hpasses

/-- Paths with one site have one site afterwards, and no others do. -/
theorem siteOn_edit_eq_iff (hq : q.toValue.maps ⊆ ms) (hq' : q'.toValue.maps ⊆ ms)
    (hparts : parts <:+ annotationPath) (hparts' : parts' <:+ annotationPath)
    (hbound : q.toValue.bound ≤ fresh) (hbound' : q'.toValue.bound ≤ fresh) :
    (q.edit e).siteOn parts = (q'.edit e).siteOn parts' ↔ q.siteOn parts = q'.siteOn parts' := by
  obtain ⟨s, hs, hsite⟩ := exists_siteOn_edit h hkey hms hr
  -- a site that is not that of the annotation is none that has been made
  have hother : ∀ {q : Resource} {parts}, q.toValue.bound ≤ fresh → q.siteOn parts ≠ r.site →
      q.siteOn parts ≠ s := fun {q parts} hb hne heq => by
    obtain rfl | hle := hs
    · exact hne heq
    · exact absurd (Value.lt_of_mem_objects hb (siteOn_mem_objects parts q)) (not_lt.2 (heq ▸ hle))
  rw [hsite hq hparts, hsite hq' hparts']
  split_ifs with h₁ h₂ h₂
  · exact iff_of_true rfl (h₁.trans h₂.symm)
  · exact iff_of_false (fun heq => hother hbound' h₂ heq.symm) fun heq => h₂ (heq.symm.trans h₁)
  · exact iff_of_false (hother hbound h₁) fun heq => h₁ (heq.trans h₂)
  · exact Iff.rfl

theorem siteOn_edit_fst (hq : q.toValue.maps ⊆ ms) (hparts : parts <:+ annotationPath) :
    ((q.edit e).siteOn parts).1 = (q.siteOn parts).1 ∨ fresh ≤ ((q.edit e).siteOn parts).1 := by
  obtain ⟨s, hs, hsite⟩ := exists_siteOn_edit h hkey hms hr
  rw [hsite hq hparts]
  split_ifs with heq
  · exact hs.imp_left fun hs => by rw [hs, heq]
  · exact .inl rfl

end

end Resource

end ScopedFn
