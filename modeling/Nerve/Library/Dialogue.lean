import Mathlib.Data.List.Basic
import Mathlib.Tactic.Common

/-!
# Dialogues

A program that acts on the world only by asking it things: a dialogue is done, has
failed, or asks a question and goes on with the answer. What the world does is not modelled
at all, so a statement about every run of a dialogue is one about every world, however its
answers depend on what went before. `Runs d e r` says that the dialogue can end in
`r` after the exchanges `e`; an exchange is a question with the answer it got.

`Ensures d Φ` is partial correctness: `Φ` holds of the exchanges and the value of every run
that returns one. It is proved along the program, one rule for each way to build it.
-/

namespace Nerve

universe u

/-- A question with its answer. -/
structure Exchange (Q : Type u) (A : Q → Type u) where
  question : Q
  answer : A question

/-- A program that asks questions `q : Q`, each answered by an `A q`. -/
inductive Dialogue (Q : Type u) (A : Q → Type u) (ε α : Type u) where
  | done (a : α)
  | fail (e : ε)
  | ask (q : Q) (next : A q → Dialogue Q A ε α)

namespace Dialogue

variable {Q : Type u} {A : Q → Type u} {ε α β : Type u}

/-- One after the other. -/
def bind (d : Dialogue Q A ε α) (f : α → Dialogue Q A ε β) : Dialogue Q A ε β :=
  match d with
  | .done a => f a
  | .fail e => .fail e
  | .ask q next => .ask q fun a => (next a).bind f

instance : Monad (Dialogue Q A ε) where
  pure := .done
  bind := bind

/-- Ask one question. -/
def query (q : Q) : Dialogue Q A ε (A q) := .ask q .done

/-- Change the error a dialogue fails with. -/
def mapError (g : ε → ε) : Dialogue Q A ε α → Dialogue Q A ε α
  | .done a => .done a
  | .fail e => .fail (g e)
  | .ask q next => .ask q fun a => (next a).mapError g

/-- The same dialogue, with its errors among others. -/
def liftError {ε' : Type u} (g : ε → ε') : Dialogue Q A ε α → Dialogue Q A ε' α
  | .done a => .done a
  | .fail e => .fail (g e)
  | .ask q next => .ask q fun a => (next a).liftError g

/-- The failure as a value. -/
def asValue {ε' : Type u} : Dialogue Q A ε α → Dialogue Q A ε' (Except ε α)
  | .done a => .done (.ok a)
  | .fail e => .done (.error e)
  | .ask q next => .ask q fun a => (next a).asValue

/-- Take the value, or fail. -/
def ofExcept : Except ε α → Dialogue Q A ε α
  | .ok a => .done a
  | .error e => .fail e

/-- What the dialogue returns or fails with, after which exchanges. -/
inductive Runs : Dialogue Q A ε α → List (Exchange Q A) → Except ε α → Prop
  | done (a : α) : Runs (.done a) [] (.ok a)
  | fail (e : ε) : Runs (.fail e) [] (.error e)
  | ask {q : Q} {next : A q → Dialogue Q A ε α} {a : A q} {es : List (Exchange Q A)} {r : Except ε α}
      (h : Runs (next a) es r) : Runs (.ask q next) (⟨q, a⟩ :: es) r

/-- Play a dialogue against a world that answers from what went before. -/
def play (world : List (Exchange Q A) → (q : Q) → A q) (past : List (Exchange Q A)) :
    Dialogue Q A ε α → List (Exchange Q A) × Except ε α
  | .done a => ([], .ok a)
  | .fail e => ([], .error e)
  | .ask q next =>
    let x : Exchange Q A := ⟨q, world past q⟩
    let (es, r) := (next x.answer).play world (past ++ [x])
    (x :: es, r)

theorem runs_play (world : List (Exchange Q A) → (q : Q) → A q) (past : List (Exchange Q A))
    (d : Dialogue Q A ε α) : Runs d (d.play world past).1 (d.play world past).2 := by
  induction d generalizing past with
  | done a => exact .done a
  | fail e => exact .fail e
  | ask q next ih => exact .ask (ih _ _)

/-! ### A world with a state -/

/-- The dialogue against a world that answers from its state. -/
def serve {σ : Type*} (handler : σ → (q : Q) → A q × σ) : Dialogue Q A ε α → σ → Except ε α × σ
  | .done a, s => (.ok a, s)
  | .fail e, s => (.error e, s)
  | .ask q next, s => (next (handler s q).1).serve handler (handler s q).2

section Serve

variable {σ : Type*} {handler : σ → (q : Q) → A q × σ} {s s' : σ}

theorem serve_ask {q : Q} {next : A q → Dialogue Q A ε α} :
    (ask q next).serve handler s = (next (handler s q).1).serve handler (handler s q).2 := rfl

theorem serve_bind {d : Dialogue Q A ε α} {f : α → Dialogue Q A ε β} :
    (d >>= f).serve handler s = match d.serve handler s with
      | (.ok a, s₁) => (f a).serve handler s₁
      | (.error e, s₁) => (.error e, s₁) := by
  induction d generalizing s with
  | done a => rfl
  | fail e => rfl
  | ask q next ih => exact ih _

theorem serve_mapError {g : ε → ε} {d : Dialogue Q A ε α} :
    (d.mapError g).serve handler s = ((d.serve handler s).1.mapError g, (d.serve handler s).2) := by
  induction d generalizing s with
  | done a => rfl
  | fail e => rfl
  | ask q next ih => exact ih _

theorem serve_liftError {ε' : Type u} {g : ε → ε'} {d : Dialogue Q A ε α} :
    (d.liftError g).serve handler s = ((d.serve handler s).1.mapError g, (d.serve handler s).2) := by
  induction d generalizing s with
  | done a => rfl
  | fail e => rfl
  | ask q next ih => exact ih _

theorem serve_bind_ok {d : Dialogue Q A ε α} {f : α → Dialogue Q A ε β} {b : β}
    (h : (d >>= f).serve handler s = (.ok b, s')) :
    ∃ a s₁, d.serve handler s = (.ok a, s₁) ∧ (f a).serve handler s₁ = (.ok b, s') := by
  induction d generalizing s with
  | done a => exact ⟨a, s, rfl, h⟩
  | fail e => cases (Prod.mk.inj h).1
  | ask q next ih => exact ih _ h

theorem serve_mapError_ok {g : ε → ε} {d : Dialogue Q A ε α} {a : α}
    (h : (d.mapError g).serve handler s = (.ok a, s')) : d.serve handler s = (.ok a, s') := by
  induction d generalizing s with
  | done b => exact h
  | fail e => cases (Prod.mk.inj h).1
  | ask q next ih => exact ih _ h

theorem serve_ofExcept {r : Except ε α} : (ofExcept r : Dialogue Q A ε α).serve handler s = (r, s) := by
  cases r <;> rfl

theorem serve_ofExcept_ok {r : Except ε α} {a : α} (h : (ofExcept r).serve handler s = (.ok a, s')) :
    r = .ok a ∧ s = s' := by
  rcases r with e | b
  · cases (Prod.mk.inj h).1
  · obtain ⟨hr, rfl⟩ := Prod.mk.inj h
    exact ⟨hr, rfl⟩

/-- From the beginning of the dialogue to its end the state satisfies `I`, so that it does wherever the dialogue is cut
short, and if a value is returned, `Φ` holds of it and the last state. -/
def Upholds (handler : σ → (q : Q) → A q × σ) (I : σ → Prop) (Φ : α → σ → Prop) : Dialogue Q A ε α → σ → Prop
  | .done a, s => I s ∧ Φ a s
  | .fail _, s => I s
  | .ask q next, s => I s ∧ (next (handler s q).1).Upholds handler I Φ (handler s q).2

section Upholds

variable {I : σ → Prop} {Φ Ψ : α → σ → Prop} {d : Dialogue Q A ε α}

theorem Upholds.head (h : d.Upholds handler I Φ s) : I s := by
  cases d with
  | done a => exact h.1
  | fail e => exact h
  | ask q next => exact h.1

theorem Upholds.last (h : d.Upholds handler I Φ s) :
    I (d.serve handler s).2 ∧ ∀ a, (d.serve handler s).1 = .ok a → Φ a (d.serve handler s).2 := by
  induction d generalizing s with
  | done a =>
    refine ⟨h.1, fun b hb => ?_⟩
    cases hb
    exact h.2
  | fail e => exact ⟨h, fun b hb => by cases hb⟩
  | ask q next ih => exact ih _ h.2

theorem Upholds.mono (h : d.Upholds handler I Φ s) (hΦ : ∀ a s, Φ a s → Ψ a s) : d.Upholds handler I Ψ s := by
  induction d generalizing s with
  | done a => exact ⟨h.1, hΦ a s h.2⟩
  | fail e => exact h
  | ask q next ih => exact ⟨h.1, ih _ h.2⟩

/-- The rule of composition. -/
theorem Upholds.bind {Θ : β → σ → Prop} {f : α → Dialogue Q A ε β} (h : d.Upholds handler I Φ s)
    (hf : ∀ a s', I s' → Φ a s' → (f a).Upholds handler I Θ s') : (d >>= f).Upholds handler I Θ s := by
  induction d generalizing s with
  | done a => exact hf a s h.1 h.2
  | fail e => exact h
  | ask q next ih => exact ⟨h.1, ih _ h.2⟩

theorem Upholds.liftError {ε' : Type u} {g : ε → ε'} (h : d.Upholds handler I Φ s) :
    (d.liftError g).Upholds handler I Φ s := by
  induction d generalizing s with
  | done a => exact h
  | fail e => exact h
  | ask q next ih => exact ⟨h.1, ih _ h.2⟩

end Upholds

end Serve

/-! ### Runs of a composition -/

/-- The one part and then the other, or the first fails. -/
theorem runs_bind {d : Dialogue Q A ε α} {f : α → Dialogue Q A ε β} {es : List (Exchange Q A)} {r : Except ε β}
    (h : Runs (d >>= f) es r) :
    (∃ a es₁ es₂, es = es₁ ++ es₂ ∧ Runs d es₁ (.ok a) ∧ Runs (f a) es₂ r) ∨
      ∃ e, r = .error e ∧ Runs d es (.error e) := by
  induction d generalizing es with
  | done a => exact Or.inl ⟨a, [], es, rfl, .done a, h⟩
  | fail e =>
    cases h
    exact Or.inr ⟨e, rfl, .fail e⟩
  | ask q next ih =>
    cases h with
    | ask h =>
      obtain ⟨a, es₁, es₂, rfl, h₁, h₂⟩ | ⟨e, rfl, h₁⟩ := ih _ h
      · exact Or.inl ⟨a, _ :: es₁, es₂, rfl, .ask h₁, h₂⟩
      · exact Or.inr ⟨e, rfl, .ask h₁⟩

theorem runs_bind_ok {d : Dialogue Q A ε α} {f : α → Dialogue Q A ε β} {es : List (Exchange Q A)} {b : β}
    (h : Runs (d >>= f) es (.ok b)) :
    ∃ a es₁ es₂, es = es₁ ++ es₂ ∧ Runs d es₁ (.ok a) ∧ Runs (f a) es₂ (.ok b) := by
  obtain h | ⟨e, he, -⟩ := runs_bind h
  · exact h
  · cases he

theorem runs_mapError_ok {g : ε → ε} {d : Dialogue Q A ε α} {es : List (Exchange Q A)} {a : α}
    (h : Runs (d.mapError g) es (.ok a)) : Runs d es (.ok a) := by
  induction d generalizing es with
  | done b =>
    cases h
    exact .done a
  | fail e => cases h
  | ask q next ih =>
    cases h with
    | ask h => exact .ask (ih _ h)

/-! ### Partial correctness -/

/-- Every run that returns a value satisfies `Φ`. -/
def Ensures (d : Dialogue Q A ε α) (Φ : List (Exchange Q A) → α → Prop) : Prop :=
  ∀ es a, Runs d es (.ok a) → Φ es a

variable {Φ Φ' : List (Exchange Q A) → α → Prop} {Ψ : List (Exchange Q A) → β → Prop}

theorem Ensures.mono {d : Dialogue Q A ε α} (h : d.Ensures Φ) (hΦ : ∀ es a, Φ es a → Φ' es a) : d.Ensures Φ' :=
  fun es a hr => hΦ es a (h es a hr)

theorem Ensures.and {d : Dialogue Q A ε α} (h : d.Ensures Φ) (h' : d.Ensures Φ') :
    d.Ensures fun es a => Φ es a ∧ Φ' es a :=
  fun es a hr => ⟨h es a hr, h' es a hr⟩

theorem Ensures.mapError {g : ε → ε} {d : Dialogue Q A ε α} (h : d.Ensures Φ) : (d.mapError g).Ensures Φ :=
  fun es a hr => h es a (runs_mapError_ok hr)

theorem ensures_pure {a : α} (h : Φ [] a) : Ensures (pure a : Dialogue Q A ε α) Φ := by
  intro es b hr
  cases hr
  exact h

theorem ensures_fail {e : ε} : Ensures (.fail e : Dialogue Q A ε α) Φ := by
  intro es b hr
  cases hr

theorem ensures_query {q : Q} {Φ : List (Exchange Q A) → A q → Prop} (h : ∀ a, Φ [⟨q, a⟩] a) :
    Ensures (query q : Dialogue Q A ε (A q)) Φ := by
  intro es b hr
  cases hr with
  | ask hr =>
    cases hr
    exact h b

theorem ensures_ofExcept {x : Except ε α} (h : ∀ a, x = .ok a → Φ [] a) :
    Ensures (ofExcept x : Dialogue Q A ε α) Φ := by
  rcases x with e | a
  · exact ensures_fail
  · exact ensures_pure (h a rfl)

/-- The rule of composition: what the first part ensures is known to the second. -/
theorem Ensures.bind {d : Dialogue Q A ε α} {f : α → Dialogue Q A ε β} (h : d.Ensures Φ)
    (hf : ∀ es₁ a, Φ es₁ a → (f a).Ensures fun es₂ b => Ψ (es₁ ++ es₂) b) : (d >>= f).Ensures Ψ := by
  intro es b hr
  obtain ⟨a, es₁, es₂, rfl, h₁, h₂⟩ := runs_bind_ok hr
  exact hf es₁ a (h es₁ a h₁) es₂ b h₂

theorem ensures_true (d : Dialogue Q A ε α) : d.Ensures fun _ _ => True := fun _ _ _ => trivial

/-- The rule of composition when nothing need be known of the first part. -/
theorem ensures_bind {d : Dialogue Q A ε α} {f : α → Dialogue Q A ε β}
    (hf : ∀ es₁ a, (f a).Ensures fun es₂ b => Ψ (es₁ ++ es₂) b) : (d >>= f).Ensures Ψ :=
  (ensures_true d).bind fun es₁ a _ => hf es₁ a

/-! ### Which questions are asked -/

/-- Every question the dialogue can ask satisfies `P`. -/
def Asks (P : Q → Prop) : Dialogue Q A ε α → Prop
  | .done _ | .fail _ => True
  | .ask q next => P q ∧ ∀ a, (next a).Asks P

variable {P : Q → Prop}

theorem asks_pure (a : α) : Asks P (pure a : Dialogue Q A ε α) := trivial

theorem asks_fail (e : ε) : Asks P (.fail e : Dialogue Q A ε α) := trivial

theorem asks_query {q : Q} (h : P q) : Asks P (query q : Dialogue Q A ε (A q)) := ⟨h, fun _ => trivial⟩

theorem asks_ofExcept (x : Except ε α) : Asks P (ofExcept x : Dialogue Q A ε α) := by
  cases x <;> trivial

theorem Asks.bind {d : Dialogue Q A ε α} {f : α → Dialogue Q A ε β} (h : d.Asks P) (hf : ∀ a, (f a).Asks P) :
    (d >>= f).Asks P := by
  induction d with
  | done a => exact hf a
  | fail e => trivial
  | ask q next ih => exact ⟨h.1, fun a => ih a (h.2 a)⟩

theorem Asks.pure_bind {a : α} {f : α → Dialogue Q A ε β} (h : (f a).Asks P) :
    ((pure a : Dialogue Q A ε α) >>= f).Asks P := h

theorem Asks.mapError {g : ε → ε} {d : Dialogue Q A ε α} (h : d.Asks P) : (d.mapError g).Asks P := by
  induction d with
  | done a => trivial
  | fail e => trivial
  | ask q next ih => exact ⟨h.1, fun a => ih a (h.2 a)⟩

theorem Asks.mono {P' : Q → Prop} {d : Dialogue Q A ε α} (h : d.Asks P) (hP : ∀ q, P q → P' q) : d.Asks P' := by
  induction d with
  | done a => trivial
  | fail e => trivial
  | ask q next ih => exact ⟨hP q h.1, fun a => ih a (h.2 a)⟩

theorem Asks.liftError {ε' : Type u} {g : ε → ε'} {d : Dialogue Q A ε α} (h : d.Asks P) : (d.liftError g).Asks P := by
  induction d with
  | done a => trivial
  | fail e => trivial
  | ask q next ih => exact ⟨h.1, fun a => ih a (h.2 a)⟩

/-- Where such questions leave the state as it is. -/
theorem Asks.upholds {σ : Type*} {handler : σ → (q : Q) → A q × σ} {I : σ → Prop}
    (hstay : ∀ q, P q → ∀ s, (handler s q).2 = s) {d : Dialogue Q A ε α} (h : d.Asks P) {s : σ} (hI : I s) :
    d.Upholds handler I (fun a s' => s' = s ∧ (d.serve handler s).1 = .ok a) s := by
  induction d with
  | done a => exact ⟨hI, rfl, rfl⟩
  | fail e => exact hI
  | ask q next ih =>
    refine ⟨hI, ?_⟩
    rw [serve_ask, hstay q h.1 s]
    exact ih _ (h.2 _)

/-- In a run only such questions stand. -/
theorem Asks.forall_mem {d : Dialogue Q A ε α} (h : d.Asks P) {es : List (Exchange Q A)} {r : Except ε α}
    (hr : Runs d es r) : ∀ x ∈ es, P x.question := by
  induction hr with
  | done a => simp
  | fail e => simp
  | ask _ ih => exact List.forall_mem_cons.mpr ⟨h.1, ih (h.2 _)⟩

theorem Asks.ensures {d : Dialogue Q A ε α} (h : d.Asks P) : d.Ensures fun es _ => ∀ x ∈ es, P x.question :=
  fun _ _ hr => h.forall_mem hr

/-- Once a question satisfies `P`, no later one does. -/
def AsksOnce (P : Q → Prop) : Dialogue Q A ε α → Prop
  | .done _ | .fail _ => True
  | .ask q next => (¬P q ∧ ∀ a, (next a).AsksOnce P) ∨ ∀ a, (next a).Asks fun q => ¬P q

theorem Asks.asksOnce {d : Dialogue Q A ε α} (h : d.Asks fun q => ¬P q) : d.AsksOnce P := by
  induction d with
  | done a => trivial
  | fail e => trivial
  | ask q next ih => exact .inl ⟨h.1, fun a => ih a (h.2 a)⟩

/-- None in the first part, or none in the second. -/
theorem AsksOnce.bind {d : Dialogue Q A ε α} {f : α → Dialogue Q A ε β} (h : d.AsksOnce P)
    (hf : ∀ a, (f a).Asks fun q => ¬P q) : (d >>= f).AsksOnce P := by
  induction d with
  | done a => exact (hf a).asksOnce
  | fail e => trivial
  | ask q next ih =>
    obtain ⟨hq, hnext⟩ | hnext := h
    · exact .inl ⟨hq, fun a => ih a (hnext a)⟩
    · exact .inr fun a => (hnext a).bind hf

theorem Asks.bind_asksOnce {d : Dialogue Q A ε α} {f : α → Dialogue Q A ε β} (h : d.Asks fun q => ¬P q)
    (hf : ∀ a, (f a).AsksOnce P) : (d >>= f).AsksOnce P := by
  induction d with
  | done a => exact hf a
  | fail e => trivial
  | ask q next ih => exact .inl ⟨h.1, fun a => ih a (h.2 a)⟩

/-- What only such questions change stays. -/
theorem Asks.serve_view {σ β : Type*} {handler : σ → (q : Q) → A q × σ} {view : σ → β}
    (hview : ∀ q, ¬P q → ∀ s, view (handler s q).2 = view s) {d : Dialogue Q A ε α} (h : d.Asks fun q => ¬P q) (s : σ) :
    view (d.serve handler s).2 = view s := by
  induction d generalizing s with
  | done a => rfl
  | fail e => rfl
  | ask q next ih => exact (ih _ (h.2 _) _).trans (hview q h.1 s)

/-! ### Answers not told apart -/

/-- The dialogue goes on from every answer as it does from the one that `g` puts in its place. -/
def Blind (g : (q : Q) → A q → A q) : Dialogue Q A ε α → Prop
  | .done _ | .fail _ => True
  | .ask q next => ∀ a, next (g q a) = next a ∧ (next a).Blind g

variable {g : (q : Q) → A q → A q}

theorem blind_pure (a : α) : Blind g (pure a : Dialogue Q A ε α) := trivial

theorem Asks.blind {d : Dialogue Q A ε α} (h : d.Asks fun q => ∀ a, g q a = a) : d.Blind g := by
  induction d with
  | done a => trivial
  | fail e => trivial
  | ask q next ih => exact fun a => ⟨by rw [h.1 a], ih a (h.2 a)⟩

theorem Blind.bind {d : Dialogue Q A ε α} {f : α → Dialogue Q A ε β} (h : d.Blind g) (hf : ∀ a, (f a).Blind g) :
    (d >>= f).Blind g := by
  induction d with
  | done a => exact hf a
  | fail e => trivial
  | ask q next ih => exact fun a => ⟨congrArg (·.bind f) (h a).1, ih a (h a).2⟩

theorem Blind.mapError {change : ε → ε} {d : Dialogue Q A ε α} (h : d.Blind g) : (d.mapError change).Blind g := by
  induction d with
  | done a => trivial
  | fail e => trivial
  | ask q next ih => exact fun a => ⟨congrArg (·.mapError change) (h a).1, ih a (h a).2⟩

/-- **With the answers replaced the run is the same.** -/
theorem Blind.runs {d : Dialogue Q A ε α} (h : d.Blind g) {es : List (Exchange Q A)} {r : Except ε α}
    (hr : Runs d es r) : Runs d (es.map fun x => ⟨x.question, g x.question x.answer⟩) r := by
  induction hr with
  | done a => exact .done a
  | fail e => exact .fail e
  | @ask q next a es r _ ih =>
    refine Runs.ask ?_
    rw [(h a).1]
    exact ih (h a).2

/-! ### The rest of a run -/

/-- After the exchanges the dialogue has come so far. -/
inductive Reaches : Dialogue Q A ε α → List (Exchange Q A) → Dialogue Q A ε α → Prop
  | start (d : Dialogue Q A ε α) : Reaches d [] d
  | ask {q : Q} {next : A q → Dialogue Q A ε α} {a : A q} {es : List (Exchange Q A)} {rest : Dialogue Q A ε α}
      (h : Reaches (next a) es rest) : Reaches (.ask q next) (⟨q, a⟩ :: es) rest

section Reaches

variable {d rest : Dialogue Q A ε α} {es : List (Exchange Q A)}

/-- One exchange more. -/
theorem Reaches.concat {q : Q} {next : A q → Dialogue Q A ε α} (h : Reaches d es (.ask q next)) (a : A q) :
    Reaches d (es ++ [⟨q, a⟩]) (next a) := by
  generalize hrest : Dialogue.ask q next = rest at h
  induction h with
  | start d =>
    cases hrest
    exact .ask (.start _)
  | ask _ ih => exact .ask (ih hrest)

theorem Reaches.runs {a : α} (h : Reaches d es (.done a)) : Runs d es (.ok a) := by
  generalize hrest : Dialogue.done a = rest at h
  induction h with
  | start d =>
    cases hrest
    exact .done a
  | ask _ ih => exact .ask (ih hrest)

theorem Reaches.asks {P : Q → Prop} (h : Reaches d es rest) (hd : d.Asks P) : rest.Asks P := by
  induction h with
  | start d => exact hd
  | ask _ ih => exact ih (hd.2 _)

end Reaches

/-! ### Whatever is answered -/

/-- Whatever is answered, each question is one that the state allows, which the answers move on, and `Φ` holds of how the
dialogue ends and of the last state. -/
def Abides {σ : Type*} (allowed : σ → Q → Prop) (after : σ → (q : Q) → A q → σ) (Φ : Except ε α → σ → Prop) :
    Dialogue Q A ε α → σ → Prop
  | .done a, s => Φ (.ok a) s
  | .fail e, s => Φ (.error e) s
  | .ask q next, s => allowed s q ∧ ∀ a, (next a).Abides allowed after Φ (after s q a)

section Abides

variable {σ : Type*} {allowed : σ → Q → Prop} {after : σ → (q : Q) → A q → σ} {Φ : Except ε α → σ → Prop} {s : σ}

/-- The rule of composition. -/
theorem Abides.bind {Ψ : Except ε β → σ → Prop} {d : Dialogue Q A ε α} {f : α → Dialogue Q A ε β}
    (h : d.Abides allowed after Φ s) (hok : ∀ a s, Φ (.ok a) s → (f a).Abides allowed after Ψ s)
    (herror : ∀ e s, Φ (.error e) s → Ψ (.error e) s) : (d >>= f).Abides allowed after Ψ s := by
  induction d generalizing s with
  | done a => exact hok a s h
  | fail e => exact herror e s h
  | ask q next ih => exact ⟨h.1, fun a => ih a (h.2 a)⟩

theorem Abides.asValue {ε' : Type u} {d : Dialogue Q A ε α} (h : d.Abides allowed after Φ s) :
    (d.asValue : Dialogue Q A ε' (Except ε α)).Abides allowed after (fun r s => ∃ x, r = .ok x ∧ Φ x s) s := by
  induction d generalizing s with
  | done a => exact ⟨_, rfl, h⟩
  | fail e => exact ⟨_, rfl, h⟩
  | ask q next ih => exact ⟨h.1, fun a => ih a (h.2 a)⟩

/-- A question, and then the rest. -/
theorem abides_query_bind {q : Q} {f : A q → Dialogue Q A ε α} (hq : allowed s q)
    (h : ∀ a, (f a).Abides allowed after Φ (after s q a)) : (query q >>= f).Abides allowed after Φ s :=
  ⟨hq, h⟩

end Abides

end Dialogue

end Nerve
