import FleetOrchestrator.Encoding.Toml

/-! The sections that credentials are rendered to. -/

namespace FleetOrchestrator.Provision

open Encoding

structure PutCredentialRequest where
  apiKey : String
  baseUrl : String
  modelId : String
  apiBackend : String := "chat_completions"
  contextWindow : ℕ := 200000
  modelName : Option String := none

/-- What the handler asks of a request before it stores the credential. -/
def PutCredentialRequest.validate (req : PutCredentialRequest) : Except String Unit :=
  if req.apiKey = "" then .error "api_key must not be empty"
  else if req.baseUrl = "" then .error "base_url must not be empty"
  else if req.modelId = "" then .error "model_id must not be empty"
  else .ok ()

structure WorkerCredentials where
  workerName : String
  modelId : String
  baseUrl : String
  apiKey : String
  apiBackend : String
  contextWindow : ℕ
  model : Option String

/-- The credential as it is stored, with its key decrypted. -/
def PutCredentialRequest.stored (req : PutCredentialRequest) (workerName : String) :
    WorkerCredentials where
  workerName := workerName
  modelId := req.modelId
  baseUrl := req.baseUrl
  apiKey := req.apiKey
  apiBackend := req.apiBackend
  contextWindow := req.contextWindow
  model := req.modelName

def replace (c : Char) (new : List Char) (s : List Char) : List Char :=
  s.flatMap fun x => if x = c then new else [x]

def tomlEscape (s : String) : List Char :=
  let escaped := replace '"' ['\\', '"'] (replace '\\' ['\\', '\\'] s.toList)
  '"' :: escaped ++ ['"']

def sectionHeader (modelId : String) : List Char :=
  "[model.".toList ++ modelId.toList ++ "]\n".toList

def sectionLine (key : String) (value : List Char) : List Char :=
  key.toList ++ " = ".toList ++ value ++ "\n".toList

def renderGrokConfigSection (c : WorkerCredentials) : List Char :=
  sectionHeader c.modelId ++
    (sectionLine "base_url" (tomlEscape c.baseUrl) ++
      (sectionLine "api_key" (tomlEscape c.apiKey) ++
        ((match c.model with
          | some m => sectionLine "model" (tomlEscape m)
          | none => []) ++
          (sectionLine "api_backend" (tomlEscape c.apiBackend) ++
            sectionLine "context_window" (Nat.toDigits 10 c.contextWindow)))))

def textEntry (key : String) (value : String) : Toml.Statement :=
  .entry [key.toList] (.scalar (.string value.toList))

/-- The one table of a credential. -/
def sectionStatements (c : WorkerCredentials) : List Toml.Statement :=
  [.header ["model".toList, c.modelId.toList], textEntry "base_url" c.baseUrl,
    textEntry "api_key" c.apiKey] ++ c.model.toList.map (textEntry "model") ++
  [textEntry "api_backend" c.apiBackend,
    .entry ["context_window".toList] (.scalar (.integer c.contextWindow))]

def WorkerCredentials.texts (c : WorkerCredentials) : List String :=
  [c.baseUrl, c.apiKey] ++ c.model.toList ++ [c.apiBackend]

def Uncontrolled (s : String) : Prop := ∀ x ∈ s.toList, Toml.isControl x = false

section Rendering

variable {c : WorkerCredentials}

theorem tomlEscape_eq (s : String) : tomlEscape s = Toml.quoted (Toml.escape s.toList) := by
  have hescape : replace '"' ['\\', '"'] (replace '\\' ['\\', '\\'] s.toList) =
      Toml.escape s.toList := by
    rw [replace, replace, List.flatMap_assoc]
    apply List.flatMap_congr
    intro x _
    unfold Toml.escapeChar
    split
    · rfl
    · simp
  rw [tomlEscape, hescape]
  rfl

theorem bareKey_fixed {key : String} (h : key.toList ≠ [] ∧ key.toList.all Toml.isBare = true) :
    Toml.BareKey key.toList := ⟨h.1, List.all_eq_true.mp h.2⟩

theorem sectionHeader_append (id : String) (r : List Char) : sectionHeader id ++ r =
    '[' :: ("model".toList ++ '.' :: (id.toList ++ ']' :: '\n' :: r)) := by
  have hopen : "[model.".toList = '[' :: ("model".toList ++ ['.']) := by decide
  have hclose : "]\n".toList = [']', '\n'] := by decide
  have htext : sectionHeader id = '[' :: ("model".toList ++ ['.']) ++ id.toList ++ [']', '\n'] :=
    congrArg₂ (· ++ id.toList ++ ·) hopen hclose
  rw [htext]
  simp only [List.append_assoc, List.cons_append, List.nil_append]

theorem sectionLine_append (key : String) (value r : List Char) :
    sectionLine key value ++ r = Toml.setting key.toList value r := by
  have hmid : " = ".toList = [' ', '=', ' '] := by decide
  have hend : "\n".toList = ['\n'] := by decide
  have htext : sectionLine key value = key.toList ++ [' ', '=', ' '] ++ value ++ ['\n'] :=
    congrArg₂ (key.toList ++ · ++ value ++ ·) hmid hend
  rw [htext, Toml.setting]
  simp only [List.append_assoc, List.cons_append, List.nil_append]

theorem reads_text {key value : String} {r : List Char} {ss : List Toml.Statement}
    (hk : key.toList ≠ [] ∧ key.toList.all Toml.isBare = true) :
    Toml.Reads (sectionLine key (tomlEscape value) ++ r) (textEntry key value :: ss) ↔
      Uncontrolled value ∧ Toml.Reads r ss := by
  rw [sectionLine_append, tomlEscape_eq]
  exact Toml.reads_escaped (bareKey_fixed hk)

theorem reads_window {ss : List Toml.Statement} (n : ℕ) :
    Toml.Reads (sectionLine "context_window" (Nat.toDigits 10 n))
      (.entry ["context_window".toList] (.scalar (.integer n)) :: ss) ↔ Toml.Reads [] ss := by
  rw [← List.append_nil (sectionLine _ _), sectionLine_append]
  exact Toml.reads_number (bareKey_fixed (by decide)) n

theorem reads_section : Toml.Reads (renderGrokConfigSection c) (sectionStatements c) ↔
    Toml.BareKey c.modelId.toList ∧ ∀ s ∈ c.texts, Uncontrolled s := by
  have hnil : Toml.Reads [] [] := .nil
  rw [renderGrokConfigSection, sectionHeader_append]
  cases hm : c.model with
  | none =>
    simp only [sectionStatements, hm, Option.toList_none, List.map_nil, List.append_nil,
      List.cons_append, List.nil_append, WorkerCredentials.texts]
    rw [Toml.reads_subheader (bareKey_fixed (by decide)), reads_text (by decide),
      reads_text (by decide), reads_text (by decide), reads_window]
    simp [hnil]
  | some m =>
    simp only [sectionStatements, hm, Option.toList_some, List.map_cons, List.map_nil,
      List.cons_append, List.nil_append, WorkerCredentials.texts]
    rw [Toml.reads_subheader (bareKey_fixed (by decide)), reads_text (by decide),
      reads_text (by decide), reads_text (by decide), reads_text (by decide), reads_window]
    simp [hnil]

end Rendering

/-- The section is exactly the one table of the credential if and only if the model's id is a bare
key and no text holds a control character. -/
theorem section_read (c : WorkerCredentials) :
    (∀ ss, Toml.Reads (renderGrokConfigSection c) ss ↔ ss = sectionStatements c) ↔
      Toml.BareKey c.modelId.toList ∧ ∀ s ∈ c.texts, Uncontrolled s := by
  rw [← reads_section]
  constructor
  · intro h
    exact (h _).mpr rfl
  · rintro h ss
    constructor
    · intro hs
      exact hs.unique h
    · rintro rfl
      exact h

def dottedModel : PutCredentialRequest where
  apiKey := "sk-1"
  baseUrl := "https://api.example"
  modelId := "glm-5.1"

/-- The dot in the model's id opens a table below another one. -/
theorem dotted_model_nested :
    ¬∀ (req : PutCredentialRequest) (name : String), req.validate = .ok () →
      ∀ ss, Toml.Reads (renderGrokConfigSection (req.stored name)) ss ↔
        ss = sectionStatements (req.stored name) := by
  intro h
  have hread := reads_section.mp ((h dottedModel "w" (by decide) _).mpr rfl)
  have hdot := hread.1.2 '.' (by decide)
  cases hdot

end FleetOrchestrator.Provision
