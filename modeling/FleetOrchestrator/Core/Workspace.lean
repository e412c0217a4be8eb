import FleetOrchestrator.Core.Task
import FleetOrchestrator.Encoding.Components

/-! The tests of `validate_workspace_cwd`, read as a statement about the components of the path. -/

namespace FleetOrchestrator.Core

open Encoding

def accepts (raw : String) : Prop := ∃ path, validateWorkspaceCwd (some raw) = .ok path

/-- Absolute, without a NUL, and with components that name a directory below the root. -/
abbrev Contained (path : List Char) : Prop := Admitted '/' '.' (Char.ofNat 0) path

def respelled (raw other : String) : Prop :=
  Relation.EqvGen (Respelled '/' '.') raw.toList other.toList

theorem components_eq_nil {path : List Char} : components '/' '.' path = [] ↔
    (path.splitOn '/').all (fun seg => seg.isEmpty || seg = ['.']) = true := by
  simp [components, idle, List.filter_eq_nil_iff, or_iff_not_imp_left]

theorem validate_ok {raw path : String} :
    validateWorkspaceCwd (some raw) = .ok path ↔ Contained raw.toList ∧ path = raw := by
  simp only [validateWorkspaceCwd]
  constructor
  · intro h
    split at h
    · cases h
    · split at h
      · cases h
      · next hnul =>
        split at h
        · cases h
        · next habs =>
          split at h
          · cases h
          · next hpar =>
            split at h
            · cases h
            · next hroot =>
              refine ⟨⟨not_not.mp habs, ?_, ?_, ?_⟩, (Except.ok.inj h).symm⟩
              · rw [← List.contains_iff_mem]
                exact hnul
              · rw [ne_eq, components_eq_nil]
                exact hroot
              · rw [parent_mem_components]
                intro hm
                exact hpar (List.any_eq_true.mpr ⟨_, hm, by simp⟩)
  · rintro ⟨⟨habs, hnul, hroot, hpar⟩, rfl⟩
    rw [ne_eq, components_eq_nil] at hroot
    rw [parent_mem_components] at hpar
    have hne : path.toList.isEmpty = false := by
      rw [List.isEmpty_eq_false_iff]
      intro hn
      rw [hn] at habs
      cases habs
    have hany : ¬(path.toList.splitOn '/').any (· = ['.', '.']) = true := by
      simpa using hpar
    rw [if_neg (by rw [hne]; exact Bool.false_ne_true), if_neg, if_neg (not_not.mpr habs),
      if_neg hany, if_neg hroot]
    rwa [List.contains_iff_mem]

theorem accepts_iff {raw : String} : accepts raw ↔ Contained raw.toList := by
  constructor
  · rintro ⟨path, h⟩
    exact (validate_ok.mp h).1
  · intro h
    exact ⟨raw, validate_ok.mpr ⟨h, rfl⟩⟩

theorem accepts_respelled {raw other : String} (h : respelled raw other) :
    accepts raw ↔ accepts other := by
  rw [accepts_iff, accepts_iff]
  exact admitted_respelled (by decide) (by decide) (by decide) h

/-- The segments of a contained path lead down from the root, to what its components say. -/
theorem contained_resolves {path : List Char} (h : Contained path) :
    resolve '.' (path.splitOn '/') = components '/' '.' path ∧
      resolve '.' (path.splitOn '/') ≠ [] ∧
      ∀ k, resolve '.' ((path.splitOn '/').take k) <+:
        resolve '.' ((path.splitOn '/').take (k + 1)) := by
  have hpar : ['.', '.'] ∉ path.splitOn '/' := by
    rw [← parent_mem_components]
    exact h.descending
  have hres : resolve '.' (path.splitOn '/') = components '/' '.' path := resolve_eq hpar
  refine ⟨hres, ?_, resolve_descends hpar⟩
  rw [hres]
  exact h.named

theorem workspace_cwd_verdict (raw : String) :
    (accepts raw ↔ raw.toList.head? = some '/' ∧ Char.ofNat 0 ∉ raw.toList ∧
      components '/' '.' raw.toList ≠ [] ∧ ['.', '.'] ∉ components '/' '.' raw.toList) ∧
    (∀ other, respelled raw other → (accepts raw ↔ accepts other)) ∧
    ∀ path, validateWorkspaceCwd (some raw) = .ok path → path = raw ∧
      resolve '.' (raw.toList.splitOn '/') = components '/' '.' raw.toList ∧
      resolve '.' (raw.toList.splitOn '/') ≠ [] ∧
      ∀ k, resolve '.' ((raw.toList.splitOn '/').take k) <+:
        resolve '.' ((raw.toList.splitOn '/').take (k + 1)) := by
  refine ⟨?_, fun other h => accepts_respelled h, fun path h => ?_⟩
  · rw [accepts_iff]
    exact ⟨fun h => ⟨h.absolute, h.clean, h.named, h.descending⟩,
      fun ⟨ha, hn, hc, hp⟩ => ⟨ha, hn, hc, hp⟩⟩
  · obtain ⟨hc, rfl⟩ := validate_ok.mp h
    exact ⟨rfl, contained_resolves hc⟩

example : respelled "/srv//fleet/" "/srv/./fleet" := by
  have h1 : Respelled '/' '.' "/srv/fleet".toList "/srv//fleet".toList := .slash "/srv".toList _
  have h2 : Respelled '/' '.' "/srv//fleet".toList "/srv//fleet/".toList := .trailing _
  have h3 : Respelled '/' '.' "/srv/fleet".toList "/srv/./fleet".toList := .idle "/srv".toList _
  have h21 := Relation.EqvGen.trans _ _ _ (.rel _ _ h1) (.rel _ _ h2)
  exact .trans _ _ _ (.symm _ _ h21) (.rel _ _ h3)

end FleetOrchestrator.Core
