import FleetOrchestrator.Core.Fleet
import FleetOrchestrator.Encoding.Framing
import FleetOrchestrator.Encoding.Words
import Mathlib.Data.List.Destutter
import Mathlib.Data.List.Perm.Basic
import Mathlib.Data.List.Sort
import Mathlib.Data.String.Basic

/-! Agent templates: their life cycle, the bodies of their revisions, and the texts that are
hashed. -/

namespace FleetOrchestrator.Core

namespace AgentTemplateStatus

def parseStr : String → Option AgentTemplateStatus
  | "draft" => some draft
  | "published" => some published
  | "deprecated" => some deprecated
  | "retired" => some retired
  | "discarded" => some discarded
  | _ => none

theorem parseStr_asStr (s : AgentTemplateStatus) : parseStr s.asStr = some s := by
  cases s <;> rfl

def allowedTransitions : AgentTemplateStatus → List AgentTemplateStatus
  | draft => [published, discarded]
  | published => [deprecated, retired]
  | deprecated => [published, retired]
  | retired | discarded => []

def canTransitionTo (s next : AgentTemplateStatus) : Bool := s.allowedTransitions.contains next

def acceptsNewRevisions : AgentTemplateStatus → Bool
  | draft | published | deprecated => true
  | retired | discarded => false

theorem canTransitionTo_iff {s next : AgentTemplateStatus} :
    s.canTransitionTo next = true ↔ next ∈ s.allowedTransitions := by
  rw [canTransitionTo, List.contains_iff_mem]

end AgentTemplateStatus

end FleetOrchestrator.Core

namespace FleetOrchestrator.Templates

open Core Encoding

structure AgentTemplateBody where
  rolePrompt : String
  tools : List String
  skills : List String
  deriving DecidableEq

def sorted (l : List String) : List String := l.insertionSort (· ≤ ·)

/-- The names as a set: trimmed, without empty ones, sorted, each once. -/
def normalizedNames (names : List String) : List String :=
  (sorted ((names.map trim).filter fun s => !s.isEmpty)).destutter (· ≠ ·)

def AgentTemplateBody.normalized (body : AgentTemplateBody) : AgentTemplateBody :=
  { rolePrompt := body.rolePrompt
    tools := normalizedNames body.tools
    skills := normalizedNames body.skills }

def bytes (s : String) : List UInt8 := s.toUTF8.data.toList

def decimal (n : ℕ) : List UInt8 := (Nat.toDigits 10 n).map Char.toUInt8

/-- The encoding's separators. -/
def colon : UInt8 := 58

def newline : UInt8 := 10

def hashField (name : String) (value : String) : List UInt8 :=
  bytes name ++ [colon] ++ (decimal (bytes value).length ++ [colon] ++ bytes value ++ [newline])

def hashList (name : String) (items : List String) : List UInt8 :=
  bytes name ++ [colon] ++
    (decimal items.length ++ [newline] ++ items.flatMap (hashField "item"))

/-- What is hashed of a body. -/
def AgentTemplateBody.hashed (body : AgentTemplateBody) : List UInt8 :=
  bytes "agent_template/v1\n" ++ hashField "role_prompt" body.rolePrompt ++
    hashList "tools" body.tools ++ hashList "skills" body.skills

def AgentTemplateBody.contentHash (sha256 : List UInt8 → String) (body : AgentTemplateBody) :
    String := sha256 body.normalized.hashed

/-- What is hashed of the agents that depend on a template. -/
def dependentSet (agentIds : List AgentId) : List UInt8 :=
  bytes "agent_template_dependents/v1\n" ++ hashList "agents" (sorted (agentIds.map toString))

def dependentSetHash (sha256 : List UInt8 → String) (agentIds : List AgentId) : String :=
  sha256 (dependentSet agentIds)

section Injective

theorem bytes_injective : Function.Injective bytes := by
  intro s t h
  apply String.toByteArray_inj.mp
  apply ByteArray.ext
  exact Array.toList_inj.mp h

theorem digit_bounds {n : ℕ} {c : Char} (h : c ∈ Nat.toDigits 10 n) :
    48 ≤ c.toNat ∧ c.toNat ≤ 57 :=
  Char.isDigit_iff_toNat.mp (Nat.isDigit_of_mem_toDigits (by omega) (by omega) h)

theorem digit_byte {n : ℕ} {c : Char} (h : c ∈ Nat.toDigits 10 n) :
    c.toUInt8.toNat = c.toNat := by
  have := digit_bounds h
  simp only [Char.toUInt8, UInt32.toNat_toUInt8, Char.toNat] at *
  omega

theorem toDigits_injective : Function.Injective (Nat.toDigits 10) := by
  intro m n h
  have hvalue := congrArg (fun cs => Nat.ofDigitChars 10 cs 0) h
  simpa only [Nat.ofDigitChars_ten_toDigits] using hvalue

theorem decimal_injective : Function.Injective decimal := by
  intro m n h
  apply toDigits_injective
  have hnat (k : ℕ) : (decimal k).map UInt8.toNat = (Nat.toDigits 10 k).map Char.toNat := by
    rw [decimal, List.map_map]
    exact List.map_congr_left fun c hc => digit_byte hc
  have hcodes := congrArg (List.map UInt8.toNat) h
  rw [hnat, hnat] at hcodes
  exact List.map_injective_iff.mpr (fun c d hcd => Char.toNat_inj.mp hcd) hcodes

theorem byte_ge {n : ℕ} {b : UInt8} (h : b ∈ decimal n) : 48 ≤ b.toNat ∧ b.toNat ≤ 57 := by
  obtain ⟨c, hc, rfl⟩ := List.mem_map.mp h
  rw [digit_byte hc]
  exact digit_bounds hc

theorem colon_notMem (n : ℕ) : colon ∉ decimal n := by
  intro h
  exact absurd (byte_ge h) (by decide)

theorem newline_notMem (n : ℕ) : newline ∉ decimal n := by
  intro h
  exact absurd (byte_ge h) (by decide)

theorem selfDelimiting_hashField (name : String) : SelfDelimiting (hashField name) :=
  (((selfDelimiting_framed decimal_injective colon_notMem).comp bytes_injective).before _).after _

theorem selfDelimiting_hashList (name : String) : SelfDelimiting (hashList name) :=
  ((selfDelimiting_hashField "item").counted decimal_injective newline_notMem).after _

theorem agentId_toString_injective : Function.Injective (toString : AgentId → String) := by
  intro x y h
  have hdigits : Nat.toDigits 10 x.uuid = Nat.toDigits 10 y.uuid := String.ofList_injective h
  cases x
  cases y
  exact congrArg AgentId.mk (toDigits_injective hdigits)

/-- Lists of agents with one encoding are the same agents. -/
theorem dependentSet_perm {xs ys : List AgentId} (h : dependentSet xs = dependentSet ys) :
    xs.Perm ys := by
  have hlist : hashList "agents" (sorted (xs.map toString)) =
      hashList "agents" (sorted (ys.map toString)) := List.append_cancel_left h
  have hsorted := (selfDelimiting_hashList "agents").injective hlist
  apply (List.map_perm_map_iff agentId_toString_injective).mp
  have hxs : (sorted (xs.map toString)).Perm (xs.map toString) := List.perm_insertionSort _ _
  have hys : (sorted (ys.map toString)).Perm (ys.map toString) := List.perm_insertionSort _ _
  rw [hsorted] at hxs
  exact hxs.symm.trans hys

end Injective

end FleetOrchestrator.Templates
