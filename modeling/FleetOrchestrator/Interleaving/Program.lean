import Mathlib.Data.List.Infix
import Mathlib.Logic.Basic

/-! Programs that issue one atomic operation at a time, and what such a program does along
its own history, whatever the operations answer. -/

namespace FleetOrchestrator.Interleaving

variable {Op : Type} {Resp : Op → Type} {α β : Type}

inductive Prog (Op : Type) (Resp : Op → Type) (α : Type) : Type where
  | ret (a : α)
  | call (op : Op) (k : Resp op → Prog Op Resp α)

structure Entry (Op : Type) (Resp : Op → Type) where
  op : Op
  resp : Resp op

namespace Prog

def bind : Prog Op Resp α → (α → Prog Op Resp β) → Prog Op Resp β
  | .ret a, f => f a
  | .call op k, f => .call op fun r => (k r).bind f

instance : Monad (Prog Op Resp) where
  pure := .ret
  bind := bind

def perform (op : Op) : Prog Op Resp (Resp op) := .call op .ret

/-- Sequencing that stops at the first error. -/
def andThen {ε : Type} (p : Prog Op Resp (Except ε α)) (f : α → Prog Op Resp (Except ε β)) :
    Prog Op Resp (Except ε β) :=
  p.bind fun
    | .error e => .ret (.error e)
    | .ok a => f a

/-- The program run with nobody in between. -/
def alone {State : Type} (exec : (op : Op) → State → Resp op × State) :
    Prog Op Resp α → State → α × State
  | .ret a, s => (a, s)
  | .call op k, s => (k (exec op s).1).alone exec (exec op s).2

@[simp] theorem pure_eq (a : α) : (pure a : Prog Op Resp α) = .ret a := rfl

@[simp] theorem ret_bind (a : α) (f : α → Prog Op Resp β) : (Prog.ret a >>= f) = f a := rfl

@[simp] theorem call_bind (op : Op) (k : Resp op → Prog Op Resp α) (f : α → Prog Op Resp β) :
    (Prog.call op k >>= f) = .call op fun r => k r >>= f := rfl

@[simp] theorem perform_bind (op : Op) (f : Resp op → Prog Op Resp β) :
    (perform op >>= f) = .call op f := rfl

theorem bind_assoc {γ : Type} (p : Prog Op Resp α) (f : α → Prog Op Resp β)
    (g : β → Prog Op Resp γ) : p >>= f >>= g = p >>= fun a => f a >>= g := by
  induction p with
  | ret a => rfl
  | call op k ih =>
    simp only [call_bind]
    congr 1
    funext r
    exact ih r

theorem alone_bind {State : Type} (exec : (op : Op) → State → Resp op × State) (p : Prog Op Resp α)
    (f : α → Prog Op Resp β) (s : State) :
    (p >>= f).alone exec s = (f (p.alone exec s).1).alone exec (p.alone exec s).2 := by
  induction p generalizing s with
  | ret a => rfl
  | call op k ih => exact ih (exec op s).1 (exec op s).2

theorem alone_map {State : Type} (exec : (op : Op) → State → Resp op × State) (f : α → β)
    (p : Prog Op Resp α) (s : State) :
    (f <$> p).alone exec s = (f (p.alone exec s).1, (p.alone exec s).2) :=
  alone_bind exec p _ s

end Prog

/-- Every operation the program issues is licensed by `φ` given the history before it (newest
entry first), and every value it returns satisfies `Q` of the whole history. -/
def Obeys (φ : List (Entry Op Resp) → Op → Prop) (Q : α → List (Entry Op Resp) → Prop) :
    Prog Op Resp α → List (Entry Op Resp) → Prop
  | .ret a, h => Q a h
  | .call op k, h => φ h op ∧ ∀ r, Obeys φ Q (k r) (⟨op, r⟩ :: h)

section Rules

variable {φ ψ : List (Entry Op Resp) → Op → Prop}
  {Q R : α → List (Entry Op Resp) → Prop} {S : β → List (Entry Op Resp) → Prop}
  {p : Prog Op Resp α} {h : List (Entry Op Resp)}

theorem obeys_ret {a : α} (hq : Q a h) : Obeys φ Q (.ret a) h := hq

theorem obeys_call {op : Op} {k : Resp op → Prog Op Resp α} (ho : φ h op)
    (hk : ∀ r, Obeys φ Q (k r) (⟨op, r⟩ :: h)) : Obeys φ Q (.call op k) h := ⟨ho, hk⟩

theorem obeys_perform {op : Op} {Q : Resp op → List (Entry Op Resp) → Prop} (ho : φ h op)
    (hq : ∀ r, Q r (⟨op, r⟩ :: h)) : Obeys φ Q (Prog.perform op) h := ⟨ho, hq⟩

theorem obeys_step {op : Op} {f : Resp op → Prog Op Resp β} (ho : φ h op)
    (hf : ∀ r, Obeys φ S (f r) (⟨op, r⟩ :: h)) : Obeys φ S (Prog.perform op >>= f) h := ⟨ho, hf⟩

/-- Sequencing: the first program's results and its history are what the second starts from. -/
theorem obeys_bind {f : α → Prog Op Resp β} (hp : Obeys φ Q p h)
    (hf : ∀ a h', Q a h' → Obeys φ S (f a) h') : Obeys φ S (p >>= f) h := by
  induction p generalizing h with
  | ret a => exact hf a h hp
  | call op k ih => exact ⟨hp.1, fun r => ih r (hp.2 r)⟩

theorem obeys_map {f : α → β} (hp : Obeys φ (fun a => S (f a)) p h) : Obeys φ S (f <$> p) h :=
  obeys_bind hp fun _ _ hs => hs

theorem obeys_andThen {ε : Type} {p : Prog Op Resp (Except ε α)}
    {f : α → Prog Op Resp (Except ε β)} {Q : Except ε α → List (Entry Op Resp) → Prop}
    {S : Except ε β → List (Entry Op Resp) → Prop} (hp : Obeys φ Q p h)
    (he : ∀ e h', Q (.error e) h' → S (.error e) h')
    (hf : ∀ a h', Q (.ok a) h' → Obeys φ S (f a) h') : Obeys φ S (p.andThen f) h := by
  apply obeys_bind hp
  intro r h' hq
  cases r with
  | error e => exact he e h' hq
  | ok a => exact hf a h' hq

theorem obeys_mono (hp : Obeys φ Q p h) (hφ : ∀ h op, φ h op → ψ h op)
    (hq : ∀ a h', Q a h' → R a h') : Obeys ψ R p h := by
  induction p generalizing h with
  | ret a => exact hq a h hp
  | call op k ih => exact ⟨hφ h op hp.1, fun r => ih r (hp.2 r)⟩

theorem obeys_conseq (hp : Obeys φ Q p h) (hq : ∀ a h', Q a h' → R a h') : Obeys φ R p h :=
  obeys_mono hp (fun _ _ ho => ho) hq

theorem obeys_any (hφ : ∀ h op, φ h op) (hq : ∀ a h', Q a h') : Obeys φ Q p h := by
  induction p generalizing h with
  | ret a => exact hq a h
  | call op k ih => exact ⟨hφ h op, fun r => ih r⟩

theorem obeys_and (hp : Obeys φ Q p h) (hr : Obeys ψ R p h) :
    Obeys (fun h op => φ h op ∧ ψ h op) (fun a h' => Q a h' ∧ R a h') p h := by
  induction p generalizing h with
  | ret a => exact ⟨hp, hr⟩
  | call op k ih => exact ⟨⟨hp.1, hr.1⟩, fun r => ih r (hp.2 r) (hr.2 r)⟩

end Rules

/-- The operations a program can issue, whatever the answers. -/
def Uses (allowed : Op → Prop) : Prog Op Resp α → Prop
  | .ret _ => True
  | .call op k => allowed op ∧ ∀ r, Uses allowed (k r)

/-- `h'` continues `h`, by nothing but allowed operations. -/
def Grew (allowed : Op → Prop) (h h' : List (Entry Op Resp)) : Prop :=
  ∃ new, h' = new ++ h ∧ ∀ e ∈ new, allowed e.op

namespace Grew

variable {allowed wider : Op → Prop} {h h₁ h₂ : List (Entry Op Resp)} {e : Entry Op Resp}

theorem refl (h : List (Entry Op Resp)) : Grew allowed h h := ⟨[], rfl, by simp⟩

theorem cons (he : allowed e.op) (hg : Grew allowed h h₁) : Grew allowed h (e :: h₁) := by
  obtain ⟨new, rfl, hn⟩ := hg
  refine ⟨e :: new, rfl, ?_⟩
  intro x hx
  rcases List.mem_cons.mp hx with rfl | hx
  · exact he
  · exact hn x hx

theorem one (he : allowed e.op) : Grew allowed h (e :: h) := cons he (refl h)

theorem trans (h₁₂ : Grew allowed h h₁) (h₂₃ : Grew allowed h₁ h₂) : Grew allowed h h₂ := by
  obtain ⟨new, rfl, hn⟩ := h₁₂
  obtain ⟨new', rfl, hn'⟩ := h₂₃
  refine ⟨new' ++ new, (List.append_assoc _ _ _).symm, ?_⟩
  intro x hx
  rcases List.mem_append.mp hx with hx | hx
  · exact hn' x hx
  · exact hn x hx

theorem mono (hg : Grew allowed h h₁) (hw : ∀ op, allowed op → wider op) : Grew wider h h₁ := by
  obtain ⟨new, rfl, hn⟩ := hg
  exact ⟨new, rfl, fun x hx => hw _ (hn x hx)⟩

theorem suffix (hg : Grew allowed h h₁) : h <:+ h₁ := by
  obtain ⟨new, rfl, -⟩ := hg
  exact List.suffix_append new h

theorem mem (hg : Grew allowed h h₁) (he : e ∈ h) : e ∈ h₁ := hg.suffix.subset he

end Grew

section UsesRules

variable {allowed wider : Op → Prop} {φ : List (Entry Op Resp) → Op → Prop}
  {Q : α → List (Entry Op Resp) → Prop} {p : Prog Op Resp α} {h : List (Entry Op Resp)}

theorem uses_ret (a : α) : Uses allowed (.ret a : Prog Op Resp α) := trivial

theorem uses_call {op : Op} {k : Resp op → Prog Op Resp α} (ho : allowed op)
    (hk : ∀ r, Uses allowed (k r)) : Uses allowed (.call op k) := ⟨ho, hk⟩

theorem uses_perform {op : Op} (ho : allowed op) :
    Uses allowed (Prog.perform op : Prog Op Resp (Resp op)) := ⟨ho, fun _ => trivial⟩

theorem uses_bind {f : α → Prog Op Resp β} (hp : Uses allowed p) (hf : ∀ a, Uses allowed (f a)) :
    Uses allowed (p >>= f) := by
  induction p with
  | ret a => exact hf a
  | call op k ih => exact ⟨hp.1, fun r => ih r (hp.2 r)⟩

/-- What every allowed operation brings about, a program of such operations brings about. -/
theorem alone_along {State : Type} {exec : (op : Op) → State → Resp op × State}
    {R : State → State → Prop} (hrefl : ∀ s, R s s) (htrans : ∀ s t u, R s t → R t u → R s u)
    (hop : ∀ op s, allowed op → R s (exec op s).2) (hp : Uses allowed p) (s : State) :
    R s (p.alone exec s).2 := by
  induction p generalizing s with
  | ret a => exact hrefl s
  | call op k ih => exact htrans _ _ _ (hop op s hp.1) (ih _ (hp.2 _) _)

theorem uses_map {f : α → β} (hp : Uses allowed p) : Uses allowed (f <$> p) :=
  uses_bind hp fun _ => trivial

theorem uses_mono (hp : Uses allowed p) (hw : ∀ op, allowed op → wider op) : Uses wider p := by
  induction p with
  | ret a => trivial
  | call op k ih => exact ⟨hw op hp.1, fun r => ih r (hp.2 r)⟩

/-- A program keeps to what it uses, whatever else it obeys. -/
theorem obeys_grew (hp : Obeys φ Q p h) (hu : Uses allowed p) :
    Obeys φ (fun a h' => Q a h' ∧ Grew allowed h h') p h := by
  have grow : ∀ {h₀ : List (Entry Op Resp)}, Grew allowed h₀ h →
      Obeys φ (fun a h' => Q a h' ∧ Grew allowed h₀ h') p h := by
    intro h₀ hg
    induction p generalizing h with
    | ret a => exact ⟨hp, hg⟩
    | call op k ih => exact ⟨hp.1, fun r => ih r (hp.2 r) (hu.2 r) (hg.cons hu.1)⟩
  exact grow (.refl h)

theorem obeys_of_uses (hu : Uses allowed p) (hφ : ∀ h op, allowed op → φ h op) :
    Obeys φ (fun _ h' => Grew allowed h h') p h := by
  have free : Obeys φ (fun _ _ => True) p h := by
    induction p generalizing h with
    | ret a => trivial
    | call op k ih => exact ⟨hφ h op hu.1, fun r => ih r (hu.2 r)⟩
  exact obeys_conseq (obeys_grew free hu) fun _ _ hq => hq.2

end UsesRules

/-- The program keeps to the licences whatever went before it. -/
def Abides (φ : List (Entry Op Resp) → Op → Prop) (p : Prog Op Resp α) : Prop :=
  ∀ h, Obeys φ (fun _ _ => True) p h

section AbidesRules

variable {φ : List (Entry Op Resp) → Op → Prop} {p : Prog Op Resp α}

theorem abides_ret (a : α) : Abides φ (.ret a : Prog Op Resp α) := fun _ => trivial

theorem abides_bind {f : α → Prog Op Resp β} (hp : Abides φ p) (hf : ∀ a, Abides φ (f a)) :
    Abides φ (p >>= f) :=
  fun h => obeys_bind (hp h) fun a h' _ => hf a h'

theorem abides_step {op : Op} {f : Resp op → Prog Op Resp β} (ho : ∀ h, φ h op)
    (hf : ∀ r, Abides φ (f r)) : Abides φ (Prog.perform op >>= f) :=
  fun h => obeys_step (ho h) fun r => hf r _

theorem abides_of_uses {allowed : Op → Prop} (hu : Uses allowed p)
    (hφ : ∀ h op, allowed op → φ h op) : Abides φ p :=
  fun _ => obeys_conseq (obeys_of_uses hu hφ) fun _ _ _ => trivial

theorem uses_of_obeys {allowed : Op → Prop} {h : List (Entry Op Resp)}
    (hp : Obeys (fun _ => allowed) (fun _ _ => True) p h) : Uses allowed p := by
  induction p generalizing h with
  | ret a => trivial
  | call op k ih => exact ⟨hp.1, fun r => ih r (hp.2 r)⟩

end AbidesRules

/-- The values a program can return, whatever the answers. -/
def Returns (R : α → Prop) : Prog Op Resp α → Prop
  | .ret a => R a
  | .call _ k => ∀ r, Returns R (k r)

section ReturnsRules

variable {R R' : α → Prop} {S : β → Prop} {p : Prog Op Resp α}

theorem returns_ret {a : α} (ha : R a) : Returns R (.ret a : Prog Op Resp α) := ha

theorem returns_bind {f : α → Prog Op Resp β} (hf : ∀ a, Returns S (f a)) :
    Returns S (p >>= f) := by
  induction p with
  | ret a => exact hf a
  | call op k ih => exact fun r => ih r

theorem returns_mono (hp : Returns R p) (hr : ∀ a, R a → R' a) : Returns R' p := by
  induction p with
  | ret a => exact hr a hp
  | call op k ih => exact fun r => ih r (hp r)

theorem obeys_returns {φ : List (Entry Op Resp) → Op → Prop}
    {Q : α → List (Entry Op Resp) → Prop} {h : List (Entry Op Resp)} (hp : Obeys φ Q p h)
    (hr : Returns R p) : Obeys φ (fun a h' => Q a h' ∧ R a) p h := by
  induction p generalizing h with
  | ret a => exact ⟨hp, hr⟩
  | call op k ih => exact ⟨hp.1, fun r => ih r (hp.2 r) (hr r)⟩

end ReturnsRules

section Embedding

variable {Op' : Type} {Resp' : Op' → Type}

/-- A program over some operations as one over more of them. -/
def Prog.embed (f : Op → Op') (g : ∀ op, Resp' (f op) → Resp op) :
    Prog Op Resp α → Prog Op' Resp' α
  | .ret a => .ret a
  | .call op k => .call (f op) fun r => (k (g op r)).embed f g

variable {f : Op → Op'} {g : ∀ op, Resp' (f op) → Resp op} {p : Prog Op Resp α}

theorem uses_all {allowed : Op → Prop} (ha : ∀ op, allowed op) : Uses allowed p := by
  induction p with
  | ret a => exact uses_ret a
  | call op k ih => exact uses_call (ha op) ih

theorem uses_embed {allowed : Op' → Prop} (hp : Uses (fun op => allowed (f op)) p) :
    Uses allowed (p.embed f g) := by
  induction p with
  | ret a => exact uses_ret a
  | call op k ih => exact uses_call hp.1 fun r => ih (g op r) (hp.2 (g op r))

theorem embed_bind {β : Type} (k : α → Prog Op Resp β) :
    (p >>= k).embed f g = p.embed f g >>= fun a => (k a).embed f g := by
  induction p with
  | ret a => rfl
  | call op q ih =>
    change Prog.call (f op) _ = Prog.call (f op) _
    congr 1
    funext r
    exact ih (g op r)

end Embedding

/-- The property is kept by composition, and the operations allowed have it. -/
structure Composes (allowed : Op → Prop) (P : {α : Type} → Prog Op Resp α → Prop) : Prop where
  ret : ∀ {α : Type} (a : α), P (.ret a : Prog Op Resp α)
  bind : ∀ {α β : Type} {p : Prog Op Resp α} {f : α → Prog Op Resp β}, P p → (∀ a, P (f a)) →
    P (p >>= f)
  perform : ∀ op, allowed op → P (Prog.perform op : Prog Op Resp (Resp op))

/-- From wherever `S` holds the program goes on within its licences, and `S` holds after it. -/
def Carries (S : List (Entry Op Resp) → Prop) (φ : List (Entry Op Resp) → Op → Prop) {α : Type}
    (p : Prog Op Resp α) : Prop :=
  ∀ h, S h → Obeys φ (fun _ h' => S h') p h

section Composition

variable {allowed : Op → Prop} {P : {α : Type} → Prog Op Resp α → Prop} {α β : Type}
  {S : List (Entry Op Resp) → Prop} {φ : List (Entry Op Resp) → Op → Prop}

theorem Composes.call (hP : Composes allowed P) {op : Op} {f : Resp op → Prog Op Resp β}
    (ho : allowed op) (hf : ∀ r, P (f r)) : P (Prog.perform op >>= f) :=
  hP.bind (hP.perform op ho) hf

theorem Composes.uses (hP : Composes allowed P) {p : Prog Op Resp α} (hp : Uses allowed p) :
    P p := by
  induction p with
  | ret a => exact hP.ret a
  | call op k ih => exact hP.call hp.1 fun r => ih r (hp.2 r)

theorem Composes.mono (hP : Composes allowed P) {narrower : Op → Prop}
    (hw : ∀ op, narrower op → allowed op) : Composes narrower P where
  ret := hP.ret
  bind := hP.bind
  perform op ho := hP.perform op (hw op ho)

theorem Composes.andThen (hP : Composes allowed P) {ε : Type} {p : Prog Op Resp (Except ε α)}
    {f : α → Prog Op Resp (Except ε β)} (hp : P p) (hf : ∀ a, P (f a)) : P (p.andThen f) := by
  apply hP.bind hp
  intro r
  cases r with
  | error e => exact hP.ret _
  | ok a => exact hf a

theorem abides_perform {op : Op} (ho : ∀ h, φ h op) :
    Abides φ (Prog.perform op : Prog Op Resp (Resp op)) :=
  fun h => obeys_perform (ho h) fun _ => trivial

theorem uses_step {op : Op} {f : Resp op → Prog Op Resp β} (ho : allowed op)
    (hf : ∀ r, Uses allowed (f r)) : Uses allowed (Prog.perform op >>= f) := ⟨ho, hf⟩

theorem uses_ite {c : Prop} [Decidable c] {p q : Prog Op Resp α} (hp : Uses allowed p)
    (hq : Uses allowed q) : Uses allowed (if c then p else q) := by
  split
  · exact hp
  · exact hq

theorem obeys_ite {Q : α → List (Entry Op Resp) → Prop} {h : List (Entry Op Resp)} {c : Prop}
    [Decidable c] {p q : Prog Op Resp α} (hp : c → Obeys φ Q p h) (hq : ¬ c → Obeys φ Q q h) :
    Obeys φ Q (if c then p else q) h := by
  split
  · next hc => exact hp hc
  · next hc => exact hq hc

theorem composes_uses : Composes allowed (fun {α} => @Uses Op Resp α allowed) where
  ret := uses_ret
  bind := uses_bind
  perform _ ho := uses_perform ho

theorem composes_abides (hφ : ∀ h op, allowed op → φ h op) : Composes allowed (Abides φ) where
  ret := abides_ret
  bind := abides_bind
  perform op ho := abides_perform fun h => hφ h op ho

theorem composes_carries (hφ : ∀ h op, S h → allowed op → φ h op)
    (hS : ∀ h op r, S h → allowed op → S (⟨op, r⟩ :: h)) : Composes allowed (Carries S φ) where
  ret _ _ hs := hs
  bind hp hf h hs := obeys_bind (hp h hs) fun a h' hs' => hf a h' hs'
  perform op ho h hs := obeys_perform (hφ h op hs ho) fun r => hS h op r hs ho

end Composition

end FleetOrchestrator.Interleaving

/-! What a program returns when it runs by itself: postconditions, and their rules. -/

namespace FleetOrchestrator.Interleaving

variable {Op : Type} {Resp : Op → Type} {State α β : Type}

/-- `none` where a call waits for something that does not come. -/
def Prog.byItself (exec : (op : Op) → State → Option (Resp op × State)) :
    Prog Op Resp α → State → Option (α × State)
  | .ret a, s => some (a, s)
  | .call op k, s => (exec op s).bind fun r => (k r.1).byItself exec r.2

/-- The program comes to its end, and `Q` holds there. -/
def Ends (exec : (op : Op) → State → Option (Resp op × State)) (p : Prog Op Resp α) (s : State)
    (Q : α → State → Prop) : Prop :=
  ∃ r, p.byItself exec s = some r ∧ Q r.1 r.2

variable {exec : (op : Op) → State → Option (Resp op × State)} {p : Prog Op Resp α} {s s' : State}
  {Q Q' : α → State → Prop} {R : β → State → Prop}

theorem byItself_bind (f : α → Prog Op Resp β) :
    (p >>= f).byItself exec s =
      (p.byItself exec s).bind fun r => (f r.1).byItself exec r.2 := by
  induction p generalizing s with
  | ret a => rfl
  | call op k ih =>
    simp only [Prog.call_bind, Prog.byItself, Option.bind_assoc]
    apply congrArg
    funext r
    exact ih r.1

theorem ends_ret {a : α} (h : Q a s) : Ends exec (.ret a) s Q := ⟨(a, s), rfl, h⟩

theorem ends_mono (h : Ends exec p s Q) (hq : ∀ a s, Q a s → Q' a s) :
    Ends exec p s Q' := by
  obtain ⟨r, hr, hQ⟩ := h
  exact ⟨r, hr, hq r.1 r.2 hQ⟩

theorem ends_after {f : α → Prog Op Resp β} {r : α × State} (hr : p.byItself exec s = some r)
    (hf : Ends exec (f r.1) r.2 R) : Ends exec (p >>= f) s R := by
  obtain ⟨r', hr', hR⟩ := hf
  refine ⟨r', ?_, hR⟩
  rw [byItself_bind, hr]
  exact hr'

theorem ends_bind {f : α → Prog Op Resp β} (hp : Ends exec p s Q)
    (hf : ∀ a s', Q a s' → Ends exec (f a) s' R) : Ends exec (p >>= f) s R := by
  obtain ⟨r, hr, hQ⟩ := hp
  exact ends_after hr (hf r.1 r.2 hQ)

theorem ends_call {op : Op} {k : Resp op → Prog Op Resp α} {a : Resp op}
    (hx : exec op s = some (a, s')) (hk : Ends exec (k a) s' Q) :
    Ends exec (.call op k) s Q := by
  obtain ⟨r, hr, hQ⟩ := hk
  refine ⟨r, ?_, hQ⟩
  simp only [Prog.byItself, hx, Option.bind_some]
  exact hr

theorem ends_step {op : Op} {f : Resp op → Prog Op Resp β} {a : Resp op}
    (hx : exec op s = some (a, s')) (hf : Ends exec (f a) s' R) :
    Ends exec (Prog.perform op >>= f) s R := ends_call hx hf

/-- A program returns one thing. -/
theorem Ends.sound {a : α} (h : Ends exec p s Q)
    (hp : (p.byItself exec s).map Prod.fst = some a) : ∃ s', Q a s' := by
  obtain ⟨r, hr, hQ⟩ := h
  rw [hr] at hp
  cases hp
  exact ⟨r.2, hQ⟩

end FleetOrchestrator.Interleaving
