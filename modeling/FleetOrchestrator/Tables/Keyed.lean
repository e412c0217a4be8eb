import Mathlib.Data.List.Nodup

/-! Tables of rows with distinct keys, read and written either by key, as a map is, or by a
predicate on the rows, as a query language does. -/

namespace FleetOrchestrator.Tables

structure Keyed (κ ρ : Type) (key : ρ → κ) where
  rows : List ρ
  nodup : (rows.map key).Nodup

namespace Keyed

variable {κ ρ : Type} {key : ρ → κ}

theorem ext {t u : Keyed κ ρ key} (h : t.rows = u.rows) : t = u := by
  cases t
  cases u
  cases h
  rfl

def empty : Keyed κ ρ key := ⟨[], List.nodup_nil⟩

def select (t : Keyed κ ρ key) (p : ρ → Bool) : List ρ := t.rows.filter p

def rowsAffected (t : Keyed κ ρ key) (p : ρ → Bool) : ℕ := (t.select p).length

def updateWhere (t : Keyed κ ρ key) (p : ρ → Bool) (f : ρ → ρ) (hf : ∀ r, key (f r) = key r) :
    Keyed κ ρ key :=
  ⟨t.rows.map fun r => if p r then f r else r, by
    have h : key ∘ (fun r => if p r then f r else r) = key := by
      funext r
      by_cases hp : p r <;> simp [hp, hf]
    rw [List.map_map, h]
    exact t.nodup⟩

def eraseWhere (t : Keyed κ ρ key) (p : ρ → Bool) : Keyed κ ρ key :=
  ⟨t.rows.filter fun r => !p r, (List.filter_sublist.map key).nodup t.nodup⟩

theorem updateWhere_of_none {t : Keyed κ ρ key} {p : ρ → Bool} {f : ρ → ρ}
    {hf : ∀ r, key (f r) = key r} (hp : ∀ x ∈ t.rows, p x = false) :
    t.updateWhere p f hf = t := by
  apply ext
  change t.rows.map _ = t.rows
  conv_rhs => rw [← List.map_id t.rows]
  apply List.map_congr_left
  intro x hx
  simp [hp x hx]

theorem rowsAffected_pos {t : Keyed κ ρ key} {p : ρ → Bool} :
    0 < t.rowsAffected p ↔ ∃ r ∈ t.rows, p r = true := by
  rw [rowsAffected, select, List.length_filter_pos_iff]

variable [DecidableEq κ]

def get (t : Keyed κ ρ key) (k : κ) : Option ρ := t.rows.find? fun r => key r = k

def contains (t : Keyed κ ρ key) (k : κ) : Bool := t.rows.any fun r => key r = k

def modify (t : Keyed κ ρ key) (k : κ) (f : ρ → ρ) (hf : ∀ r, key (f r) = key r) :
    Keyed κ ρ key := t.updateWhere (fun r => key r = k) f hf

def erase (t : Keyed κ ρ key) (k : κ) : Keyed κ ρ key := t.eraseWhere fun r => key r = k

def put (t : Keyed κ ρ key) (r : ρ) : Keyed κ ρ key :=
  ⟨(t.erase (key r)).rows ++ [r], by
    rw [List.map_append, List.nodup_append]
    refine ⟨(t.erase (key r)).nodup, List.nodup_singleton _, ?_⟩
    intro a ha b hb hab
    obtain ⟨x, hx, hk⟩ := List.mem_map.mp ha
    have hb : b = key r := by simpa using hb
    simp [erase, eraseWhere, hk, hab, hb] at hx⟩

theorem get_eq_some {t : Keyed κ ρ key} {k : κ} {r : ρ} :
    t.get k = some r ↔ r ∈ t.rows ∧ key r = k := by
  constructor
  · intro h
    exact ⟨List.mem_of_find?_eq_some h, by simpa using List.find?_some h⟩
  · rintro ⟨hr, rfl⟩
    cases hg : t.get (key r) with
    | none =>
      rw [get, List.find?_eq_none] at hg
      simpa using hg r hr
    | some r' =>
      have hr' : r' ∈ t.rows := List.mem_of_find?_eq_some hg
      have hk : key r' = key r := by simpa using List.find?_some hg
      rw [List.inj_on_of_nodup_map t.nodup hr' hr hk]

theorem get_key {t : Keyed κ ρ key} {k : κ} {r : ρ} (h : t.get k = some r) : key r = k :=
  (get_eq_some.mp h).2

theorem get_eq_none {t : Keyed κ ρ key} {k : κ} :
    t.get k = none ↔ ∀ r ∈ t.rows, key r ≠ k := by
  simp [get, List.find?_eq_none]

theorem get_of_mem {t : Keyed κ ρ key} {r : ρ} (h : r ∈ t.rows) : t.get (key r) = some r :=
  get_eq_some.mpr ⟨h, rfl⟩

theorem contains_eq {t : Keyed κ ρ key} {k : κ} : t.contains k = (t.get k).isSome := by
  rw [contains, get, Bool.eq_iff_iff, List.find?_isSome]
  simp

@[simp] theorem get_empty (k : κ) : (empty : Keyed κ ρ key).get k = none := rfl

theorem select_key {t : Keyed κ ρ key} {x : ρ} (hx : x ∈ t.rows) :
    t.select (fun r => key r = key x) = [x] := by
  have hn := t.nodup
  rw [select]
  obtain ⟨front, back, he⟩ := List.append_of_mem hx
  rw [he, List.map_append, List.map_cons, List.nodup_middle, List.nodup_cons] at hn
  have hother : ∀ r ∈ front ++ back, key r ≠ key x := by
    intro r hr hk
    apply hn.1
    rw [← hk, ← List.map_append]
    exact List.mem_map_of_mem hr
  rw [he, List.filter_append, List.filter_cons_of_pos (by simp),
    List.filter_eq_nil_iff.mpr fun r hr => by simpa using hother r (List.mem_append_left _ hr),
    List.filter_eq_nil_iff.mpr fun r hr => by simpa using hother r (List.mem_append_right _ hr),
    List.nil_append]

/-- At most one row has the key. -/
theorem rowsAffected_key {t : Keyed κ ρ key} {k : κ} (q : ρ → Bool) :
    t.rowsAffected (fun r => key r = k && q r) = if (t.get k).any q then 1 else 0 := by
  have hand : t.select (fun r => key r = k && q r) = (t.select fun r => key r = k).filter q := by
    simp only [select, List.filter_filter, Bool.and_comm]
  rw [rowsAffected, hand]
  cases h : t.get k with
  | none =>
    have hempty : t.select (fun r => key r = k) = [] :=
      List.filter_eq_nil_iff.mpr fun r hr => by simpa using get_eq_none.mp h r hr
    rw [hempty]
    rfl
  | some x =>
    obtain ⟨hx, rfl⟩ := get_eq_some.mp h
    rw [select_key hx, Option.any_some]
    by_cases hq : q x = true
    · rw [List.filter_cons_of_pos hq, if_pos hq]
      rfl
    · rw [List.filter_cons_of_neg hq, if_neg hq]
      rfl

theorem get_updateWhere {t : Keyed κ ρ key} {p : ρ → Bool} {f : ρ → ρ}
    {hf : ∀ r, key (f r) = key r} {k : κ} :
    (t.updateWhere p f hf).get k = (t.get k).map fun r => if p r then f r else r := by
  have h : (fun r => decide (key r = k)) ∘ (fun r => if p r then f r else r) =
      fun r => decide (key r = k) := by
    funext r
    by_cases hp : p r <;> simp [hp, hf]
  rw [get, updateWhere, List.find?_map, h, get]

theorem get_modify_self {t : Keyed κ ρ key} {f : ρ → ρ} {hf : ∀ r, key (f r) = key r} {k : κ} :
    (t.modify k f hf).get k = (t.get k).map f := by
  rw [modify, get_updateWhere]
  cases h : t.get k with
  | none => rfl
  | some r => simp [get_key h]

theorem get_modify_ne {t : Keyed κ ρ key} {f : ρ → ρ} {hf : ∀ r, key (f r) = key r} {k l : κ}
    (h : l ≠ k) : (t.modify k f hf).get l = t.get l := by
  rw [modify, get_updateWhere]
  cases hr : t.get l with
  | none => rfl
  | some r => simp [get_key hr, h]

/-- A predicate that only holds at one key is an update of that key's row. -/
theorem updateWhere_eq_modify {t : Keyed κ ρ key} {p : ρ → Bool} {f : ρ → ρ}
    (hf : ∀ r, key (f r) = key r) {k : κ}
    (hp : ∀ x ∈ t.rows, p x = true ↔ key x = k) : t.updateWhere p f hf = t.modify k f hf := by
  apply ext
  apply List.map_congr_left
  intro x hx
  by_cases hk : key x = k
  · simp [hk, (hp x hx).mpr hk]
  · have : p x = false := by simpa using mt (hp x hx).mp hk
    simp [hk, this]

theorem get_erase_self {t : Keyed κ ρ key} {k : κ} : (t.erase k).get k = none := by
  rw [get_eq_none]
  intro r hr
  simpa [erase, eraseWhere] using (List.mem_filter.mp hr).2

theorem get_erase_ne {t : Keyed κ ρ key} {k l : κ} (h : l ≠ k) : (t.erase k).get l = t.get l := by
  rw [get, erase, eraseWhere, List.find?_filter, get]
  congr 1
  funext r
  by_cases hl : key r = l
  · subst l; simp [h]
  · simp [hl]

theorem get_put_self {t : Keyed κ ρ key} {r : ρ} : (t.put r).get (key r) = some r :=
  get_eq_some.mpr ⟨List.mem_append_right _ (List.mem_singleton.mpr rfl), rfl⟩

theorem get_put_ne {t : Keyed κ ρ key} {r : ρ} {k : κ} (h : k ≠ key r) :
    (t.put r).get k = t.get k := by
  have hr : List.find? (fun x => decide (key x = k)) [r] = none := by simp [Ne.symm h]
  rw [get, put, List.find?_append, hr, Option.or_none]
  exact get_erase_ne h

theorem rows_put_new {t : Keyed κ ρ key} {r : ρ} (h : t.contains (key r) = false) :
    (t.put r).rows = t.rows ++ [r] := by
  have hold : (t.erase (key r)).rows = t.rows := by
    apply List.filter_eq_self.mpr
    intro x hx
    simp only [contains, List.any_eq_false, decide_eq_true_eq] at h
    simpa using h x hx
  change (t.erase (key r)).rows ++ [r] = _
  rw [hold]

/-- A new row, or what the row with its key becomes. -/
def upsert (t : Keyed κ ρ key) (x : ρ) (merge : ρ → ρ)
    (hm : ∀ r, key r = key x → key (merge r) = key x) : Keyed κ ρ key :=
  if t.contains (key x) then
    t.modify (key x) (fun r => if key r = key x then merge r else r) fun r => by
      by_cases hr : key r = key x
      · rw [if_pos hr, hm r hr, hr]
      · rw [if_neg hr]
  else t.put x

theorem get_upsert_self {t : Keyed κ ρ key} {x : ρ} {merge : ρ → ρ}
    {hm : ∀ r, key r = key x → key (merge r) = key x} :
    (t.upsert x merge hm).get (key x) = some (((t.get (key x)).map merge).getD x) := by
  unfold upsert
  split
  · next hc =>
    rw [contains_eq, Option.isSome_iff_exists] at hc
    obtain ⟨r, hr⟩ := hc
    rw [get_modify_self, hr, Option.map_some, if_pos (get_key hr)]
    rfl
  · next hc =>
    rw [contains_eq, Bool.not_eq_true, Option.isSome_eq_false_iff, Option.isNone_iff_eq_none] at hc
    rw [get_put_self, hc]
    rfl

theorem get_upsert_ne {t : Keyed κ ρ key} {x : ρ} {merge : ρ → ρ}
    {hm : ∀ r, key r = key x → key (merge r) = key x} {k : κ} (h : k ≠ key x) :
    (t.upsert x merge hm).get k = t.get k := by
  unfold upsert
  split
  · exact get_modify_ne h
  · exact get_put_ne h

end Keyed

end FleetOrchestrator.Tables
