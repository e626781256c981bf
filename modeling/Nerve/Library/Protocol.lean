import Nerve.Library.Dialogue

/-!
# Protocols

A dialogue in the middle of a larger system. `Leads d es d'` says that after the exchanges `es`
the dialogue `d` has still `d'` to do.

A `Protocol` keeps something of the exchanges, and says by it which questions may be asked and what can be
relied on in the answers. `Follows P Φ d g` says that from `g` on the dialogue asks only such questions as
long as it gets such answers, and that it ends only in `Φ`. It is proved along the program, and every
exchange keeps it, so that a system holds it as an invariant of the dialogue's rest beside a
relation between what is kept and the rest of the state.
-/

namespace Nerve

universe u

namespace Dialogue

variable {Q : Type u} {A : Q → Type u} {ε α β : Type u}

/-! ### What is left -/

/-- After the exchanges that much is left to do. -/
inductive Leads (d : Dialogue Q A ε α) : List (Exchange Q A) → Dialogue Q A ε α → Prop
  | start : Leads d [] d
  | ask {es : List (Exchange Q A)} {q : Q} {next : A q → Dialogue Q A ε α} (h : Leads d es (.ask q next)) (a : A q) :
    Leads d (es ++ [⟨q, a⟩]) (next a)

/-- The run of what is left completes the run. -/
theorem Leads.runs {d d' : Dialogue Q A ε α} {es es' : List (Exchange Q A)} {r : Except ε α} (h : Leads d es d')
    (hr : Runs d' es' r) : Runs d (es ++ es') r := by
  induction h generalizing es' with
  | start => exact hr
  | ask _ a ih =>
    rw [List.append_assoc]
    exact ih (.ask hr)

theorem Leads.runs_done {d : Dialogue Q A ε α} {es : List (Exchange Q A)} {a : α} (h : Leads d es (.done a)) :
    Runs d es (.ok a) := by simpa using h.runs (.done a)

theorem Leads.runs_fail {d : Dialogue Q A ε α} {es : List (Exchange Q A)} {e : ε} (h : Leads d es (.fail e)) :
    Runs d es (.error e) := by simpa using h.runs (.fail e)

/-- Take the failure for a value. -/
def attempt : Dialogue Q A ε α → Dialogue Q A ε (Except ε α)
  | .done a => .done (.ok a)
  | .fail e => .done (.error e)
  | .ask q next => .ask q fun a => (next a).attempt

end Dialogue

/-- What is kept of the exchanges, and what it allows: the questions, and the answers to rely on. -/
structure Protocol (Q : Type u) (A : Q → Type u) (γ : Type*) where
  may : γ → Q → Prop
  hears : γ → (q : Q) → A q → Prop
  next : γ → (q : Q) → A q → γ

/-- What is kept after the exchanges. -/
def Protocol.after {Q : Type u} {A : Q → Type u} {γ : Type*} (P : Protocol Q A γ) (g : γ) (es : List (Exchange Q A)) : γ :=
  es.foldl (fun g x => P.next g x.question x.answer) g

theorem Protocol.after_concat {Q : Type u} {A : Q → Type u} {γ : Type*} (P : Protocol Q A γ) (g : γ)
    (es : List (Exchange Q A)) (x : Exchange Q A) : P.after g (es ++ [x]) = P.next (P.after g es) x.question x.answer := by
  simp [after]

namespace Dialogue

variable {Q : Type u} {A : Q → Type u} {ε α β : Type u} {γ : Type*} (P : Protocol Q A γ)

/-! ### Keeping to a protocol -/

/-- The dialogue keeps to the protocol, and ends in `Φ`. -/
def Follows (Φ : γ → Except ε α → Prop) : Dialogue Q A ε α → γ → Prop
  | .done a, g => Φ g (.ok a)
  | .fail e, g => Φ g (.error e)
  | .ask q next, g => P.may g q ∧ ∀ a, P.hears g q a → (next a).Follows Φ (P.next g q a)

variable {P} {Φ Φ' : γ → Except ε α → Prop} {Ψ : γ → Except ε β → Prop} {g : γ}

theorem follows_pure {a : α} (h : Φ g (.ok a)) : Follows P Φ (pure a : Dialogue Q A ε α) g := h

theorem follows_fail {e : ε} (h : Φ g (.error e)) : Follows P Φ (.fail e : Dialogue Q A ε α) g := h

theorem Follows.mono {d : Dialogue Q A ε α} (h : d.Follows P Φ g) (hΦ : ∀ g r, Φ g r → Φ' g r) : d.Follows P Φ' g := by
  induction d generalizing g with
  | done a => exact hΦ g _ h
  | fail e => exact hΦ g _ h
  | ask q next ih => exact ⟨h.1, fun a ha => ih a (h.2 a ha)⟩

/-- The rule of composition. -/
theorem Follows.bind {d : Dialogue Q A ε α} {f : α → Dialogue Q A ε β} (h : d.Follows P Φ g)
    (hok : ∀ g a, Φ g (.ok a) → (f a).Follows P Ψ g) (herror : ∀ g e, Φ g (.error e) → Ψ g (.error e)) :
    (d >>= f).Follows P Ψ g := by
  induction d generalizing g with
  | done a => exact hok g a h
  | fail e => exact herror g e h
  | ask q next ih => exact ⟨h.1, fun a ha => ih a (h.2 a ha)⟩

/-- The rule of composition after one question. -/
theorem follows_query_bind {q : Q} {f : A q → Dialogue Q A ε β} (hmay : P.may g q)
    (h : ∀ a, P.hears g q a → (f a).Follows P Ψ (P.next g q a)) :
    Follows P Ψ ((query q : Dialogue Q A ε (A q)) >>= f) g := ⟨hmay, h⟩

/-- The rule of composition after a value that may be a failure. -/
theorem follows_ofExcept_bind {x : Except ε α} {f : α → Dialogue Q A ε β} (hok : ∀ a, x = .ok a → (f a).Follows P Ψ g)
    (herror : ∀ e, x = .error e → Ψ g (.error e)) : Follows P Ψ ((ofExcept x : Dialogue Q A ε α) >>= f) g := by
  rcases x with e | a
  · exact herror e rfl
  · exact hok a rfl

theorem Follows.attempt {d : Dialogue Q A ε α} (h : d.Follows P Φ g) :
    d.attempt.Follows P (fun g r => ∃ x, r = .ok x ∧ Φ g x) g := by
  induction d generalizing g with
  | done a => exact ⟨_, rfl, h⟩
  | fail e => exact ⟨_, rfl, h⟩
  | ask q next ih => exact ⟨h.1, fun a ha => ih a (h.2 a ha)⟩

end Dialogue

end Nerve
