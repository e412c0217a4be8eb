import FleetOrchestrator.Encoding.Framing
import FleetOrchestrator.Templates.Template

/-! What the hash of a body and the hash of the agents of a template stand for. -/

namespace FleetOrchestrator.Core

theorem dropWhile_rdropWhile {α : Type} (p : α → Bool) (l : List α)
    (h : l.dropWhile p = l) : (l.rdropWhile p).dropWhile p = l.rdropWhile p := by
  rw [List.dropWhile_eq_self_iff] at h ⊢
  intro hl
  obtain ⟨rest, hrest⟩ := List.rdropWhile_prefix p l
  have hhead : l[0]? = (l.rdropWhile p)[0]? := by
    calc l[0]? = (l.rdropWhile p ++ rest)[0]? := by rw [hrest]
      _ = (l.rdropWhile p)[0]? := List.getElem?_append_left hl
  have hpos : 0 < l.length := hl.trans_le (List.rdropWhile_prefix p l).length_le
  rw [List.getElem?_eq_getElem hpos, List.getElem?_eq_getElem hl] at hhead
  rw [← Option.some.inj hhead]
  exact h hpos

theorem trim_trim (s : String) : trim (trim s) = trim s := by
  simp only [trim, String.toList_ofList]
  rw [dropWhile_rdropWhile _ _ (List.dropWhile_idempotent _ _), List.rdropWhile_idempotent]

end FleetOrchestrator.Core

namespace FleetOrchestrator.Templates

open Core Encoding

section Names

variable {names : List String} {s : String}

/-- The names without the blanks around them, where that leaves something. -/
def named (names : List String) : List String := (names.map trim).filter fun s => !s.isEmpty

theorem normalizedNames_eq (names : List String) : normalizedNames names = canonical (named names) :=
  rfl

theorem named_trimmed (h : s ∈ named names) : trim s = s ∧ s.isEmpty = false := by
  obtain ⟨hmap, hempty⟩ := List.mem_filter.mp h
  obtain ⟨name, -, rfl⟩ := List.mem_map.mp hmap
  exact ⟨trim_trim name, by simpa using hempty⟩

theorem named_of_trimmed (h : ∀ s ∈ names, trim s = s ∧ s.isEmpty = false) :
    named names = names := by
  have hmap : names.map trim = names.map id := List.map_congr_left fun s hs => (h s hs).1
  rw [named, hmap, List.map_id]
  apply List.filter_eq_self.mpr
  intro s hs
  rw [(h s hs).2]
  rfl

theorem normalizedNames_idem (names : List String) :
    normalizedNames (normalizedNames names) = normalizedNames names := by
  have hkept : named (normalizedNames names) = normalizedNames names := by
    apply named_of_trimmed
    intro s hs
    exact named_trimmed (mem_canonical.mp hs)
  rw [normalizedNames_eq (normalizedNames names), hkept]
  exact canonical_of_sortedLT (sortedLT_canonical (named names))

end Names

theorem normalized_idem (body : AgentTemplateBody) :
    body.normalized.normalized = body.normalized := by
  simp only [AgentTemplateBody.normalized, normalizedNames_idem]

theorem hashed_injective : Function.Injective AgentTemplateBody.hashed := by
  intro a b h
  simp only [AgentTemplateBody.hashed, List.append_assoc] at h
  obtain ⟨hprompt, hlists⟩ :=
    selfDelimiting_hashField "role_prompt" _ _ _ _ (List.append_cancel_left h)
  obtain ⟨htools, hskills⟩ := selfDelimiting_hashList "tools" _ _ _ _ hlists
  have hskills : a.skills = b.skills := (selfDelimiting_hashList "skills").injective hskills
  cases a
  cases b
  simp_all

/-- Agents in another order are encoded alike. -/
theorem dependentSet_of_perm {xs ys : List AgentId} (h : xs.Perm ys) :
    dependentSet xs = dependentSet ys := by
  have hsorted : sorted (xs.map toString) = sorted (ys.map toString) := by
    apply List.Perm.eq_of_sortedLE List.sortedLE_insertionSort List.sortedLE_insertionSort
    calc sorted (xs.map toString) |>.Perm (xs.map toString) := List.perm_insertionSort _ _
      _ |>.Perm (ys.map toString) := h.map _
      _ |>.Perm (sorted (ys.map toString)) := (List.perm_insertionSort _ _).symm
  rw [dependentSet, dependentSet, hsorted]

section Hashes

variable (sha256 : List UInt8 → String)

theorem contentHash_iff (hsha : Function.Injective sha256) (a b : AgentTemplateBody) :
    a.contentHash sha256 = b.contentHash sha256 ↔ a.normalized = b.normalized := by
  rw [AgentTemplateBody.contentHash, AgentTemplateBody.contentHash, hsha.eq_iff,
    hashed_injective.eq_iff]

theorem dependentSetHash_iff (hsha : Function.Injective sha256) (xs ys : List AgentId) :
    dependentSetHash sha256 xs = dependentSetHash sha256 ys ↔ xs.Perm ys := by
  rw [dependentSetHash, dependentSetHash, hsha.eq_iff]
  exact ⟨dependentSet_perm, dependentSet_of_perm⟩

/-- A body is what it is normalized to, its hash says no less and no more, and neither does the
hash of a set of agents, in whatever order they are listed. -/
theorem hashes_exact (hsha : Function.Injective sha256) :
    (∀ body : AgentTemplateBody, body.normalized.normalized = body.normalized) ∧
      (∀ a b : AgentTemplateBody,
        a.contentHash sha256 = b.contentHash sha256 ↔ a.normalized = b.normalized) ∧
      ∀ xs ys : List AgentId, xs.Nodup → ys.Nodup →
        (dependentSetHash sha256 xs = dependentSetHash sha256 ys ↔ ∀ a, a ∈ xs ↔ a ∈ ys) := by
  refine ⟨normalized_idem, contentHash_iff sha256 hsha, ?_⟩
  intro xs ys hxs hys
  rw [dependentSetHash_iff sha256 hsha]
  exact List.perm_ext_iff_of_nodup hxs hys

/-- A digest that is the text itself, each byte a character. -/
def verbatim (l : List UInt8) : String := String.ofList (l.map Char.ofUInt8)

theorem verbatim_injective : Function.Injective verbatim := by
  intro xs ys h
  apply List.map_injective_iff.mpr _ (String.ofList_injective h)
  intro b c hbc
  have hcode : b.toUInt32 = c.toUInt32 := congrArg Char.val hbc
  exact UInt8.toUInt32_inj.mp hcode

theorem hashes_exact_listed :
    dependentSetHash verbatim [⟨1⟩, ⟨2⟩] = dependentSetHash verbatim [⟨2⟩, ⟨1⟩] ∧
      dependentSetHash verbatim [⟨1⟩, ⟨2⟩] ≠ dependentSetHash verbatim [⟨12⟩] := by
  have hsets := (hashes_exact verbatim verbatim_injective).2.2
  constructor
  · apply (hsets [⟨1⟩, ⟨2⟩] [⟨2⟩, ⟨1⟩] (by decide) (by decide)).mpr
    intro a
    rw [List.mem_pair, List.mem_pair, or_comm]
  · intro h
    have hmem := (hsets [⟨1⟩, ⟨2⟩] [⟨12⟩] (by decide) (by decide)).mp h ⟨1⟩
    exact absurd hmem (by decide)

end Hashes

end FleetOrchestrator.Templates
