import Mathlib.Data.List.Perm.Basic
import ScopedFn.Proofs.Json.Written

/-!
# What a canonical text tells

A canonical text tells which value it is of, up to the order of keys: strings, numbers and
delimiters cannot be mistaken for one another, wherever a text ends.

* `Json.SameUpToOrder` : two values are the same up to the order of the keys in their maps;
* `Json.Written.sameUpToOrder` : values with the same text are the same up to the order of keys;
* `Json.Written.eq_of_sameUpToOrder` : and those values have the same text.
-/

set_option autoImplicit false

namespace ScopedFn.Json

/-- Two values are the same up to the order of the keys in their maps, at every depth. Atoms are
compared with their types, and all that is no number is the same. -/
inductive SameUpToOrder : Value → Value → Prop where
  /-- An atom is the same as itself. -/
  | atom (a : Atom) : SameUpToOrder (.atom a) (.atom a)
  /-- What is no number is the same as anything else that is none. -/
  | nan (i j : ObjectId) : SameUpToOrder (.atom (.nan i)) (.atom (.nan j))
  /-- Lists have the same items, in their order. -/
  | list {i j : ObjectId} {vs ws : List Value} (length : vs.length = ws.length)
    (h : ∀ n (hv : n < vs.length) (hw : n < ws.length), SameUpToOrder vs[n] ws[n]) :
    SameUpToOrder (.list i vs) (.list j ws)
  /-- Maps have the same keys, in any order, and each key has the same value. -/
  | map {i j : ObjectId} {es fs : MapEntries} (keys : (es.map (·.1)).Perm (fs.map (·.1)))
    (h : ∀ e ∈ es, ∀ f ∈ fs, e.1 = f.1 → SameUpToOrder e.2 f.2) :
    SameUpToOrder (.map i es) (.map j fs)

/-! ### Where a text ends -/

/-- The characters that can stand behind the text of a value. -/
def closers : List Char := [',', ']', '\x7d']

/-- The rest of a text behind that of a value. -/
def Ends (r : List Char) : Prop := ∀ c ∈ r.head?, c ∈ closers

/-- The text is not empty, and does not begin like a rest. -/
def Begins (cs : List Char) : Prop := ∃ c tail, cs = c :: tail ∧ c ∉ closers

theorem closers_subset : closers ⊆ delimiters := by decide

theorem ends_nil : Ends [] := by
  rintro c ⟨⟩

variable {r r' : List Char}

/-- The text of an atom other than a text goes on to the next delimiter. -/
theorem takeWhile_append {cs : List Char} (hcs : ∀ c ∈ delimiters, c ∉ cs) (hr : Ends r) :
    (cs ++ r).takeWhile (fun c => !delimiters.contains c) = cs := by
  have hall : ∀ c ∈ cs, (!delimiters.contains c) = true := by
    intro c hc
    rw [Bool.not_eq_true', List.contains_eq_mem, decide_eq_false_iff_not]
    exact fun hmem => hcs c hmem hc
  rw [List.takeWhile_append_of_pos hall]
  cases r with
  | nil => simp
  | cons c r =>
    have hc : c ∈ delimiters := closers_subset (hr c rfl)
    simp [hc]

theorem begins_line {t : Value → List Char} (f : String × Value) : Begins (line t f) :=
  ⟨'"', _, rfl, by decide⟩

theorem Written.begins {v : Value} {cs : List Char} (h : Written v cs) : Begins cs := by
  cases h with
  | text s => exact ⟨'"', _, rfl, by decide⟩
  | @plain a cs ha h =>
    obtain ⟨hne, hfree⟩ := notMem_of_plainAtom ha h
    obtain ⟨c, tail, rfl⟩ := List.exists_cons_of_ne_nil hne
    exact ⟨c, tail, rfl, fun hc => hfree c (closers_subset hc) List.mem_cons_self⟩
  | list h => exact ⟨'[', _, rfl, by decide⟩
  | map entries ordered h => exact ⟨'\x7b', _, rfl, by decide⟩

/-! ### Texts with commas between them -/

theorem commas_cons (t : List Char) (ts : List (List Char)) :
    commas (t :: ts) = t ++ ts.flatMap fun u => ',' :: u := by
  induction ts generalizing t with
  | nil => simp [commas]
  | cons u ts ih =>
    rw [List.flatMap_cons, List.cons_append, ← ih]
    simp [commas, List.intercalate]

section Parts

variable {α β : Type} {f : α → List Char} {g : β → List Char} {R : α → β → Prop} {close : Char}

theorem ends_tail (hclose : close ∈ [']', '\x7d']) (ts : List (List Char)) :
    Ends (ts.flatMap (fun u => ',' :: u) ++ close :: r) := by
  cases ts with
  | nil =>
    rintro c ⟨⟩
    exact List.mem_cons_of_mem _ hclose
  | cons t ts =>
    rintro c ⟨⟩
    exact List.mem_cons_self

theorem tail_inj (hclose : close ∈ [']', '\x7d']) {xs : List α} {ys : List β}
    (step : ∀ x ∈ xs, ∀ y ∈ ys, ∀ r r', Ends r → Ends r' → f x ++ r = g y ++ r' → R x y ∧ r = r')
    (h : (xs.map f).flatMap (fun u => ',' :: u) ++ close :: r =
      (ys.map g).flatMap (fun u => ',' :: u) ++ close :: r') :
    List.Forall₂ R xs ys ∧ r = r' := by
  have hcomma : close ≠ ',' := by
    rintro rfl
    exact absurd hclose (by decide)
  induction xs generalizing ys with
  | nil =>
    cases ys with
    | nil => exact ⟨.nil, (List.cons.inj h).2⟩
    | cons y ys => exact absurd (List.cons.inj h).1 hcomma
  | cons x xs ih =>
    cases ys with
    | nil => exact absurd (List.cons.inj h).1.symm hcomma
    | cons y ys =>
      simp only [List.map_cons, List.flatMap_cons, List.cons_append, List.append_assoc] at h
      obtain ⟨hxy, hrest⟩ := step x List.mem_cons_self y List.mem_cons_self _ _
        (ends_tail hclose _) (ends_tail hclose _) (List.cons.inj h).2
      obtain ⟨hxs, hr⟩ := ih (fun x hx y hy =>
        step x (List.mem_cons_of_mem _ hx) y (List.mem_cons_of_mem _ hy)) hrest
      exact ⟨.cons hxy hxs, hr⟩

theorem Begins.append_ne {cs : List Char} (h : Begins cs) (hclose : close ∈ [']', '\x7d'])
    (tail : List Char) : cs ++ tail ≠ close :: r := by
  obtain ⟨c, cs, rfl, hc⟩ := h
  intro heq
  rw [(List.cons.inj heq).1] at hc
  exact hc (List.mem_cons_of_mem _ hclose)

/-- Texts with commas between them tell which texts they are, if each of them tells what it is. -/
theorem commas_inj (hclose : close ∈ [']', '\x7d']) {xs : List α} {ys : List β}
    (hf : ∀ x ∈ xs, Begins (f x)) (hg : ∀ y ∈ ys, Begins (g y))
    (step : ∀ x ∈ xs, ∀ y ∈ ys, ∀ r r', Ends r → Ends r' → f x ++ r = g y ++ r' → R x y ∧ r = r')
    (h : commas (xs.map f) ++ close :: r = commas (ys.map g) ++ close :: r') :
    List.Forall₂ R xs ys ∧ r = r' := by
  cases xs with
  | nil =>
    cases ys with
    | nil => exact ⟨.nil, (List.cons.inj h).2⟩
    | cons y ys =>
      rw [List.map_cons, commas_cons, List.append_assoc] at h
      exact absurd h.symm ((hg y List.mem_cons_self).append_ne hclose _)
  | cons x xs =>
    cases ys with
    | nil =>
      rw [List.map_cons, commas_cons, List.append_assoc] at h
      exact absurd h ((hf x List.mem_cons_self).append_ne hclose _)
    | cons y ys =>
      rw [List.map_cons, List.map_cons, commas_cons, commas_cons, List.append_assoc,
        List.append_assoc] at h
      obtain ⟨hxy, hrest⟩ := step x List.mem_cons_self y List.mem_cons_self _ _
        (ends_tail hclose _) (ends_tail hclose _) h
      obtain ⟨hxs, hr⟩ := tail_inj hclose (fun x hx y hy =>
        step x (List.mem_cons_of_mem _ hx) y (List.mem_cons_of_mem _ hy)) hrest
      exact ⟨.cons hxy hxs, hr⟩

end Parts

/-! ### From texts to values -/

theorem plain_append_ne {a : Atom} {cs tail : List Char} {c : Char} (ha : IsPlain a)
    (h : plainAtom a = .ok cs) (hc : c ∈ delimiters) : cs ++ r ≠ c :: tail := by
  obtain ⟨hne, hfree⟩ := notMem_of_plainAtom ha h
  obtain ⟨d, ds, rfl⟩ := List.exists_cons_of_ne_nil hne
  intro heq
  rw [(List.cons.inj heq).1] at hfree
  exact hfree c hc List.mem_cons_self

theorem plain_append_inj {a b : Atom} {cs ds : List Char} (ha : IsPlain a) (hb : IsPlain b)
    (hcs : plainAtom a = .ok cs) (hds : plainAtom b = .ok ds) (hr : Ends r) (hr' : Ends r')
    (h : cs ++ r = ds ++ r') : SameUpToOrder (.atom a) (.atom b) ∧ r = r' := by
  have htake := takeWhile_append (notMem_of_plainAtom ha hcs).2 hr
  rw [h, takeWhile_append (notMem_of_plainAtom hb hds).2 hr'] at htake
  subst htake
  refine ⟨?_, List.append_cancel_left h⟩
  rcases eq_of_plainAtom ha hb hcs hds with rfl | ⟨i, j, rfl, rfl⟩
  · exact .atom a
  · exact .nan i j

section Fields

variable {fields gields : List (String × Value)}

theorem map_fst_entry (fields : List (String × Value)) :
    (fields.map entry).map (·.1) = (fields.map (·.1)).map Atom.text := by
  rw [List.map_map, List.map_map]
  rfl

/-- Fields that are related in their order have the same keys in their order. -/
theorem keys_eq_of_forall₂ {R : String × Value → String × Value → Prop}
    (h : List.Forall₂ R fields gields) (hR : ∀ f g, R f g → f.1 = g.1) :
    fields.map (·.1) = gields.map (·.1) := by
  rw [← List.forall₂_eq_eq_eq, List.forall₂_map_left_iff, List.forall₂_map_right_iff]
  exact h.imp hR

theorem getElem_key (h : fields.map (·.1) = gields.map (·.1)) {n : ℕ} (hf : n < fields.length)
    (hg : n < gields.length) : fields[n].1 = gields[n].1 := by
  have hn : n < (fields.map (·.1)).length := by rwa [List.length_map]
  have hget := List.getElem_of_eq h hn
  rwa [List.getElem_map, List.getElem_map] at hget

theorem sameUpToOrder_of_fields {i j : ObjectId} {es fs : MapEntries}
    (hes : es.Perm (fields.map entry)) (hfs : fs.Perm (gields.map entry))
    (distinct : (fields.map (·.1)).Nodup)
    (h : List.Forall₂ (fun f g => f.1 = g.1 ∧ SameUpToOrder f.2 g.2) fields gields) :
    SameUpToOrder (.map i es) (.map j fs) := by
  have hkeys := keys_eq_of_forall₂ h fun f g hfg => hfg.1
  refine .map ?_ fun e he e' he' heq => ?_
  · have hentries : (fields.map entry).map (·.1) = (gields.map entry).map (·.1) := by
      rw [map_fst_entry, map_fst_entry, hkeys]
    exact (hes.map _).trans (hentries ▸ (hfs.map _).symm)
  · obtain ⟨f, hf, rfl⟩ := List.mem_map.1 (hes.mem_iff.1 he)
    obtain ⟨g, hg, rfl⟩ := List.mem_map.1 (hfs.mem_iff.1 he')
    -- one key stands at one place only, and there its two values are related
    obtain ⟨m, hm, rfl⟩ := List.getElem_of_mem hf
    obtain ⟨n, hn, rfl⟩ := List.getElem_of_mem hg
    have hlength : fields.length = gields.length := h.length_eq
    have hm' : m < (fields.map (·.1)).length := by rwa [List.length_map]
    have hn' : n < (fields.map (·.1)).length := by rwa [List.length_map, hlength]
    have hget : (fields.map (·.1))[m] = (fields.map (·.1))[n] := by
      rw [List.getElem_map, List.getElem_map, getElem_key hkeys (hlength ▸ hn) hn]
      exact Atom.text.inj heq
    obtain rfl := distinct.getElem_inj_iff.1 hget
    exact (h.get hm hn).2

end Fields

/-- **A canonical text tells which value it is of**, up to the order of keys, and where it ends. -/
theorem Written.sameUpToOrder {a b : Value} {cs ds : List Char} (ha : Written a cs)
    (hb : Written b ds) (hr : Ends r) (hr' : Ends r') (h : cs ++ r = ds ++ r') :
    SameUpToOrder a b ∧ r = r' := by
  induction ha generalizing b ds r r' with
  | text s =>
    cases hb with
    | text t =>
      obtain ⟨heq, hrest⟩ := quote_append_inj h
      rw [String.toList_inj.1 heq]
      exact ⟨.atom _, hrest⟩
    | plain hb hds => exact absurd h.symm (plain_append_ne hb hds (by decide))
    | list => exact absurd (List.cons.inj h).1 (by decide)
    | map => exact absurd (List.cons.inj h).1 (by decide)
  | plain ha hcs =>
    cases hb with
    | text t => exact absurd h (plain_append_ne ha hcs (by decide))
    | plain hb hds => exact plain_append_inj ha hb hcs hds hr hr' h
    | list => exact absurd h (plain_append_ne ha hcs (by decide))
    | map => exact absurd h (plain_append_ne ha hcs (by decide))
  | @list i items t hitems ih =>
    cases hb with
    | text s => exact absurd (List.cons.inj h).1 (by decide)
    | plain hb hds => exact absurd h.symm (plain_append_ne hb hds (by decide))
    | @list j items' t' hitems' =>
      have hparts : commas (items.map t) ++ ']' :: r = commas (items'.map t') ++ ']' :: r' := by
        simpa using h
      obtain ⟨hsame, hrest⟩ := commas_inj (by decide) (fun v hv => (hitems v hv).begins)
        (fun w hw => (hitems' w hw).begins)
        (fun v hv w hw r r' hr hr' h => ih v hv (hitems' w hw) hr hr' h) hparts
      exact ⟨.list hsame.length_eq fun n hv hw => hsame.get hv hw, hrest⟩
    | map => exact absurd (List.cons.inj h).1 (by decide)
  | @map i es fields t entries ordered hfields ih =>
    cases hb with
    | text s => exact absurd (List.cons.inj h).1 (by decide)
    | plain hb hds => exact absurd h.symm (plain_append_ne hb hds (by decide))
    | list => exact absurd (List.cons.inj h).1 (by decide)
    | @map j fs gields t' entries' ordered' hfields' =>
      have hparts : commas (fields.map (line t)) ++ '\x7d' :: r =
          commas (gields.map (line t')) ++ '\x7d' :: r' := by
        simpa using h
      have hstep : ∀ f ∈ fields, ∀ g ∈ gields, ∀ r r', Ends r → Ends r' →
          line t f ++ r = line t' g ++ r' → (f.1 = g.1 ∧ SameUpToOrder f.2 g.2) ∧ r = r' := by
        intro f hf g hg r r' hr hr' h
        rw [line, line, List.append_assoc, List.append_assoc] at h
        obtain ⟨hkey, hvalue⟩ := quote_append_inj h
        obtain ⟨hsame, hrest⟩ := ih f hf (hfields' g hg) hr hr' (List.cons.inj hvalue).2
        exact ⟨⟨String.toList_inj.1 hkey, hsame⟩, hrest⟩
      obtain ⟨hsame, hrest⟩ := commas_inj (by decide) (fun f _ => begins_line f)
        (fun g _ => begins_line g) hstep hparts
      exact ⟨sameUpToOrder_of_fields entries entries' (ordered.imp ne_of_lt) hsame, hrest⟩

/-! ### From values to texts -/

theorem atomText_injective : Function.Injective Atom.text := fun _ _ h => Atom.text.inj h

/-- The keys of a map stand in one order in its text. -/
theorem keys_eq_of_perm {es fs : MapEntries} {fields gields : List (String × Value)}
    (hes : es.Perm (fields.map entry)) (hfs : fs.Perm (gields.map entry))
    (ordered : (fields.map (·.1)).Pairwise (· < ·)) (ordered' : (gields.map (·.1)).Pairwise (· < ·))
    (keys : (es.map (·.1)).Perm (fs.map (·.1))) : fields.map (·.1) = gields.map (·.1) := by
  have hperm : ((fields.map (·.1)).map Atom.text).Perm ((gields.map (·.1)).map Atom.text) := by
    rw [← map_fst_entry, ← map_fst_entry]
    exact ((hes.map _).symm.trans keys).trans (hfs.map _)
  refine List.Perm.eq_of_pairwise (fun a b _ _ hab hba => absurd hab hba.asymm) ordered ordered' ?_
  exact (List.map_perm_map_iff atomText_injective).1 hperm

/-- **Values that are the same up to the order of keys have one text.** -/
theorem Written.eq_of_sameUpToOrder {a b : Value} {cs ds : List Char} (ha : Written a cs)
    (hb : Written b ds) (h : SameUpToOrder a b) : cs = ds := by
  induction ha generalizing b ds with
  | text s =>
    cases h
    cases hb with
    | text t => rfl
    | plain hb hds => exact hb.elim
  | plain ha hcs =>
    cases h with
    | atom a =>
      cases hb with
      | text t => exact ha.elim
      | plain hb hds => exact Except.ok.inj (hcs.symm.trans hds)
    | nan i j =>
      cases hb with
      | plain hb hds => exact Except.ok.inj (hcs.symm.trans hds)
  | @list i items t hitems ih =>
    cases h with
    | @list _ _ _ items' hlength hsame =>
      cases hb with
      | @list _ _ t' hitems' =>
        have htexts : items.map t = items'.map t' := by
          refine List.ext_getElem (by simpa using hlength) fun n hn hn' => ?_
          rw [List.getElem_map, List.getElem_map]
          exact ih _ (List.getElem_mem _) (hitems' _ (List.getElem_mem _)) (hsame n _ _)
        rw [htexts]
  | @map i es fields t entries ordered hfields ih =>
    cases h with
    | map keys hsame =>
      cases hb with
      | @map _ _ gields t' entries' ordered' hfields' =>
        have hkeys := keys_eq_of_perm entries entries' ordered ordered' keys
        have hlength : fields.length = gields.length := by
          simpa using congrArg List.length hkeys
        have hlines : fields.map (line t) = gields.map (line t') := by
          refine List.ext_getElem (by simpa using hlength) fun n hn hn' => ?_
          rw [List.length_map] at hn hn'
          have hf := List.getElem_mem hn
          have hg := List.getElem_mem hn'
          have hkey : fields[n].1 = gields[n].1 := getElem_key hkeys hn hn'
          have hvalue : t fields[n].2 = t' gields[n].2 :=
            ih _ hf (hfields' _ hg) (hsame _ (entries.mem_iff.2 (List.mem_map_of_mem hf)) _
              (entries'.mem_iff.2 (List.mem_map_of_mem hg)) (congrArg Atom.text hkey))
          rw [List.getElem_map, List.getElem_map, line, line, hkey, hvalue]
        rw [hlines]

end ScopedFn.Json
