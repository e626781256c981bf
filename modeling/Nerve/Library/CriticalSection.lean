import Mathlib.Data.List.Nodup
import Nerve.Library.Dialogue
import Nerve.Library.TransitionSystem

/-!
# Critical sections

Callers that share a state and a lock. Each has an operation, which is a dialogue with the shared state: it waits for the
lock for so many tries, goes through its operation question by question, and gives the lock back. The callers take their
steps in any order. A caller can die anywhere, which frees the lock or leaves it taken, and one that leaves can fail to
give the lock back.

`Serial` is what the operations come to one after the other, each from beginning to end, or up to where its caller died.
`ordered_always` says of every run that at most one caller is inside, and that what the callers have done is what their
operations do one after the other in the order in which they were ended, with the results that the callers have got.
-/

namespace Nerve.CriticalSection

open TransitionSystem Dialogue

universe u

/-- How the operations `ι` work on the shared state `σ`, and what they return without having had the lock: for too many
tries, or because the lock cannot be taken at all. -/
structure Operations (Q : Type u) (A : Q → Type u) (ε α : Type u) (σ ι : Type*) where
  program : ι → Dialogue Q A ε α
  handler : ι → σ → (q : Q) → A q × σ
  tries : ι → Nat
  timeout : ι → ε
  refusal : ι → Option ε
  /-- Death gives the lock back. -/
  frees : Bool

inductive Status (Q : Type u) (A : Q → Type u) (ε α : Type u) where
  | waits (tries : Nat)
  | inside (rest : Dialogue Q A ε α)
  | leaves (result : Except ε α)
  /-- It has been inside. -/
  | returned (result : Except ε α)
  /-- It has not. -/
  | refused (e : ε)
  | dead

structure Caller (Q : Type u) (A : Q → Type u) (ε α : Type u) (ι : Type*) where
  op : ι
  status : Status Q A ε α

/-- An operation that was begun and is over: whose, and its result, if its caller lived to see it. -/
structure Ended (ε α : Type u) (ι : Type*) where
  caller : Nat
  op : ι
  result : Option (Except ε α)

structure State (Q : Type u) (A : Q → Type u) (ε α : Type u) (σ ι : Type*) where
  shared : σ
  locked : Bool
  callers : List (Caller Q A ε α ι)
  ended : List (Ended ε α ι)

inductive Action (ι : Type*) where
  | call (op : ι)
  | go (i : Nat)
  | die (i : Nat)
  /-- It leaves, and the lock stays taken. -/
  | leak (i : Nat)

variable {Q : Type u} {A : Q → Type u} {ε α : Type u} {σ ι : Type*}

namespace State

/-- Nobody has called yet. -/
def start (w : σ) : State Q A ε α σ ι := ⟨w, false, [], []⟩

def become (s : State Q A ε α σ ι) (i : Nat) (op : ι) (status : Status Q A ε α) : State Q A ε α σ ι :=
  { s with callers := s.callers.set i ⟨op, status⟩ }

/-- The caller is at the status, with its operation. -/
def At (s : State Q A ε α σ ι) (i : Nat) (op : ι) (status : Status Q A ε α) : Prop := s.callers[i]? = some ⟨op, status⟩

end State

section Step

variable (O : Operations Q A ε α σ ι) (s : State Q A ε α σ ι)

/-- The operation is over. -/
def finish (i : Nat) (op : ι) (result : Except ε α) : State Q A ε α σ ι :=
  { s.become i op (.leaves result) with ended := s.ended ++ [⟨i, op, some result⟩] }

def go (i : Nat) (op : ι) : Status Q A ε α → Option (State Q A ε α σ ι)
  | .waits 0 => some (s.become i op (.refused (O.timeout op)))
  | .waits (n + 1) =>
    if s.locked then some (s.become i op (.waits n))
    else
      match O.refusal op with
      | some e => some (s.become i op (.refused e))
      | none => some { s.become i op (.inside (O.program op)) with locked := true }
  | .inside (.done a) => some (finish s i op (.ok a))
  | .inside (.fail e) => some (finish s i op (.error e))
  | .inside (.ask q next) =>
    let answer := O.handler op s.shared q
    some { s.become i op (.inside (next answer.1)) with shared := answer.2 }
  | .leaves result => some { s.become i op (.returned result) with locked := false }
  | _ => none

def die (i : Nat) (op : ι) : Status Q A ε α → Option (State Q A ε α σ ι)
  | .waits _ => some (s.become i op .dead)
  | .inside _ => some
      { s.become i op .dead with
        locked := s.locked && !O.frees
        ended := s.ended ++ [⟨i, op, none⟩] }
  | .leaves _ => some { s.become i op .dead with locked := s.locked && !O.frees }
  | _ => none

def leak (i : Nat) (op : ι) : Status Q A ε α → Option (State Q A ε α σ ι)
  | .leaves result => some (s.become i op (.returned result))
  | _ => none

def step : Action ι → Option (State Q A ε α σ ι)
  | .call op => some { s with callers := s.callers ++ [⟨op, .waits (O.tries op)⟩] }
  | .go i => s.callers[i]?.bind fun c => go O s i c.op c.status
  | .die i => s.callers[i]?.bind fun c => die O s i c.op c.status
  | .leak i => s.callers[i]?.bind fun c => leak s i c.op c.status

end Step

/-! ### What a step can do -/

/-- The caller has the lock. -/
def Status.holds : Status Q A ε α → Bool
  | inside _ | leaves _ => true
  | _ => false

/-- The caller's operation is over. -/
def Status.past : Status Q A ε α → Bool
  | leaves _ | returned _ | dead => true
  | _ => false

/-- The steps, by what they change. Only a call brings a new operation, and a caller
that dies outside has not begun or is over already. -/
inductive Steps (O : Operations Q A ε α σ ι) (s : State Q A ε α σ ι) : Action ι → State Q A ε α σ ι → Prop
  | call (op : ι) : Steps O s (.call op) { s with callers := s.callers ++ [⟨op, .waits (O.tries op)⟩] }
  | stays {a : Action ι} {i : Nat} {op : ι} {n : Nat} (hi : s.At i op (.waits n)) {status : Status Q A ε α}
      (hstatus : (∃ m, status = .waits m) ∨ (∃ e, status = .refused e) ∨ status = .dead) : Steps O s a (s.become i op status)
  | enters {a : Action ι} {i : Nat} {op : ι} {n : Nat} (hi : s.At i op (.waits n)) (hfree : s.locked = false)
      (hop : O.refusal op = none) : Steps O s a { s.become i op (.inside (O.program op)) with locked := true }
  | asks {a : Action ι} {i : Nat} {op : ι} {q : Q} {next : A q → Dialogue Q A ε α} (hi : s.At i op (.inside (.ask q next))) :
      Steps O s a { s.become i op (.inside (next (O.handler op s.shared q).1)) with shared := (O.handler op s.shared q).2 }
  | ends {a : Action ι} {i : Nat} {op : ι} {d : Dialogue Q A ε α} (hi : s.At i op (.inside d)) {result : Except ε α}
      (hd : ∀ w, d.serve (O.handler op) w = (result, w)) : Steps O s a (finish s i op result)
  | stops {a : Action ι} {i : Nat} {op : ι} {d : Dialogue Q A ε α} (hi : s.At i op (.inside d)) (locked : Bool)
      (hlocked : locked = (s.locked && !O.frees)) :
      Steps O s a { s.become i op .dead with locked := locked, ended := s.ended ++ [⟨i, op, none⟩] }
  | leaves {a : Action ι} {i : Nat} {op : ι} {result : Except ε α} (hi : s.At i op (.leaves result)) {status : Status Q A ε α}
      (hstatus : status = .returned result ∨ status = .dead) (locked : Bool) :
      Steps O s a { s.become i op status with locked := locked }

variable {O : Operations Q A ε α σ ι} {s t : State Q A ε α σ ι}

theorem steps_of_go {a : Action ι} {i : Nat} {op : ι} {status : Status Q A ε α} (hi : s.At i op status)
    (h : go O s i op status = some t) : Steps O s a t := by
  cases status with
  | waits n =>
    cases n with
    | zero => exact Option.some.inj h ▸ .stays hi (.inr (.inl ⟨_, rfl⟩))
    | succ n =>
      rw [go] at h
      split_ifs at h with hlocked
      · exact Option.some.inj h ▸ .stays hi (.inl ⟨n, rfl⟩)
      · cases hop : O.refusal op with
        | some e =>
          rw [hop] at h
          exact Option.some.inj h ▸ .stays hi (.inr (.inl ⟨e, rfl⟩))
        | none =>
          rw [hop] at h
          exact Option.some.inj h ▸ .enters hi (by simpa using hlocked) hop
  | inside d =>
    cases d with
    | done a => exact Option.some.inj h ▸ .ends hi fun _ => rfl
    | fail e => exact Option.some.inj h ▸ .ends hi fun _ => rfl
    | ask q next => exact Option.some.inj h ▸ .asks hi
  | leaves result => exact Option.some.inj h ▸ .leaves hi (.inl rfl) false
  | returned result => cases h
  | refused e => cases h
  | dead => cases h

theorem steps_of_die {a : Action ι} {i : Nat} {op : ι} {status : Status Q A ε α} (hi : s.At i op status)
    (h : die O s i op status = some t) : Steps O s a t := by
  cases status with
  | waits n => exact Option.some.inj h ▸ .stays hi (.inr (.inr rfl))
  | inside d => exact Option.some.inj h ▸ .stops hi _ rfl
  | leaves result => exact Option.some.inj h ▸ .leaves hi (.inr rfl) _
  | returned result => cases h
  | refused e => cases h
  | dead => cases h

theorem steps_of_step {a : Action ι} (h : step O s a = some t) : Steps O s a t := by
  cases a with
  | call op => exact Option.some.inj h ▸ .call op
  | go i =>
    obtain ⟨⟨op, status⟩, hi, h⟩ := Option.bind_eq_some_iff.mp h
    exact steps_of_go hi h
  | die i =>
    obtain ⟨⟨op, status⟩, hi, h⟩ := Option.bind_eq_some_iff.mp h
    exact steps_of_die hi h
  | leak i =>
    obtain ⟨⟨op, status⟩, hi, h⟩ := Option.bind_eq_some_iff.mp h
    cases status with
    | leaves result => exact Option.some.inj h ▸ .leaves hi (.inl rfl) s.locked
    | _ => cases h

/-! ### One after the other -/

/-- The dialogue with the state is at `d` and `w` after some questions. -/
inductive Served (handler : σ → (q : Q) → A q × σ) (d₀ : Dialogue Q A ε α) (w₀ : σ) : Dialogue Q A ε α → σ → Prop
  | start : Served handler d₀ w₀ d₀ w₀
  | ask {q : Q} {next : A q → Dialogue Q A ε α} {w : σ} (h : Served handler d₀ w₀ (.ask q next) w) :
    Served handler d₀ w₀ (next (handler w q).1) (handler w q).2

theorem Served.serve_eq {handler : σ → (q : Q) → A q × σ} {d₀ d : Dialogue Q A ε α} {w₀ w : σ}
    (h : Served handler d₀ w₀ d w) : d₀.serve handler w₀ = d.serve handler w := by
  induction h with
  | start => rfl
  | ask _ ih => exact ih

/-- Where an operation changes what can be seen of the state with one question at most, it is seen as it was or as the
operation leaves it. -/
theorem Served.view {β : Type*} {handler : σ → (q : Q) → A q × σ} {P : Q → Prop} {view : σ → β}
    (hview : ∀ q, ¬P q → ∀ w, view (handler w q).2 = view w) {d₀ d : Dialogue Q A ε α} {w₀ w : σ}
    (h : Served handler d₀ w₀ d w) (honce : d₀.AsksOnce P) :
    view w = view w₀ ∨ view w = view (d₀.serve handler w₀).2 := by
  suffices hd : view w = view w₀ ∧ d.AsksOnce P ∨ d.Asks fun q => ¬P q by
    obtain ⟨heq, -⟩ | hd := hd
    · exact .inl heq
    · exact .inr (by rw [h.serve_eq, hd.serve_view hview])
  induction h with
  | start => exact .inl ⟨rfl, honce⟩
  | @ask q next w h ih =>
    obtain ⟨heq, ⟨hq, hnext⟩ | hnext⟩ | hd := ih
    · exact .inl ⟨(hview q hq w).trans heq, hnext _⟩
    · exact .inr (hnext _)
    · exact .inr (hd.2 _)

/-- The operations one after the other, from `w` on: whole, or up to some question. -/
inductive Serial (O : Operations Q A ε α σ ι) (w : σ) : List (Ended ε α ι) → σ → Prop
  | nil : Serial O w [] w
  | whole {es : List (Ended ε α ι)} {w₁ w₂ : σ} {i : Nat} {op : ι} {result : Except ε α} (h : Serial O w es w₁)
    (hop : (O.program op).serve (O.handler op) w₁ = (result, w₂)) : Serial O w (es ++ [⟨i, op, some result⟩]) w₂
  | stopped {es : List (Ended ε α ι)} {w₁ w₂ : σ} {i : Nat} {op : ι} {d : Dialogue Q A ε α} (h : Serial O w es w₁)
    (hop : Served (O.handler op) (O.program op) w₁ d w₂) : Serial O w (es ++ [⟨i, op, none⟩]) w₂

theorem Served.upholds {handler : σ → (q : Q) → A q × σ} {I : σ → Prop} {Φ : α → σ → Prop} {d₀ d : Dialogue Q A ε α}
    {w₀ w : σ} (h : Served handler d₀ w₀ d w) (hI : d₀.Upholds handler I Φ w₀) : d.Upholds handler I Φ w := by
  induction h with
  | start => exact hI
  | ask _ ih => exact ih.2

/-- What each operation keeps of the state at its every question, given those that are over, and what it adds if it
returns a value. -/
structure Invariant (O : Operations Q A ε α σ ι) (C : ι → Prop) (I : List (Ended ε α ι) → σ → Prop) : Prop where
  keep : ∀ es i op w, C op → I es w →
    (O.program op).Upholds (O.handler op) (I es) (fun a w' => I (es ++ [⟨i, op, some (.ok a)⟩]) w') w
  failed : ∀ es i op e w, I es w → I (es ++ [⟨i, op, some (.error e)⟩]) w
  stopped : ∀ es i op w, I es w → I (es ++ [⟨i, op, none⟩]) w

/-- **Induction on the operations that are over.** -/
theorem Serial.keeps {C : ι → Prop} {I : List (Ended ε α ι) → σ → Prop} {w w' : σ} {es : List (Ended ε α ι)}
    (hI : Invariant O C I) (hstart : I [] w) (h : Serial O w es w') (hC : ∀ e ∈ es, C e.op) : I es w' := by
  induction h with
  | nil => exact hstart
  | @whole es w₁ w₂ i op result h hop ih =>
    have hw₁ := ih fun e he => hC e (List.mem_append_left _ he)
    have hop' : C op := hC ⟨i, op, some result⟩ (List.mem_append_right _ List.mem_cons_self)
    obtain ⟨hlast, hok⟩ := (hI.keep es i op w₁ hop' hw₁).last
    rw [hop] at hlast hok
    cases result with
    | error e => exact hI.failed es i op e w₂ hlast
    | ok a => exact hok a rfl
  | @stopped es w₁ w₂ i op d h hop ih =>
    have hw₁ := ih fun e he => hC e (List.mem_append_left _ he)
    have hop' : C op := hC ⟨i, op, none⟩ (List.mem_append_right _ List.mem_cons_self)
    exact hI.stopped es i op w₂ (hop.upholds (hI.keep es i op w₁ hop' hw₁)).head

/-! ### What a run keeps -/

def State.Holds (s : State Q A ε α σ ι) (i : Nat) : Prop := ∃ op status, s.At i op status ∧ status.holds = true

/-- At most one caller is inside, and the operations that are over have gone one after the other; the one that is not is
on its way from there. -/
structure Ordered (O : Operations Q A ε α σ ι) (w : σ) (s : State Q A ε α σ ι) : Prop where
  alone : ∀ i j, s.Holds i → s.Holds j → i = j
  locked : ∀ i, s.Holds i → s.locked = true
  inside : ∀ i op d, s.At i op (.inside d) →
    ∃ w', Serial O w s.ended w' ∧ Served (O.handler op) (O.program op) w' d s.shared
  idle : (∀ i op d, ¬s.At i op (.inside d)) → Serial O w s.ended s.shared
  past : ∀ e ∈ s.ended, ∃ op status, s.At e.caller op status ∧ status.past = true
  nodup : (s.ended.map Ended.caller).Nodup
  told : ∀ i op result, s.At i op (.leaves result) ∨ s.At i op (.returned result) → ⟨i, op, some result⟩ ∈ s.ended

section become

variable {i j : Nat} {op op' : ι} {status status' status₀ : Status Q A ε α}

theorem at_of_callers (hi : s.At i op status₀) (t : State Q A ε α σ ι) (ht : t.callers = s.callers.set i ⟨op, status⟩)
    (j : Nat) (op' : ι) (status' : Status Q A ε α) :
    t.At j op' status' ↔ j = i ∧ op' = op ∧ status' = status ∨ j ≠ i ∧ s.At j op' status' := by
  have hlt : i < s.callers.length := (List.getElem?_eq_some_iff.mp hi).1
  rw [State.At, ht]
  by_cases hji : j = i
  · subst hji
    rw [List.getElem?_set_self hlt]
    simp [eq_comm]
  · rw [List.getElem?_set_ne (Ne.symm hji)]
    simp [hji, State.At]

theorem at_unique (h : s.At i op status) (h' : s.At i op' status') : op = op' ∧ status = status' := by
  have := h.symm.trans h'
  simpa using this

end become

theorem ordered_start (O : Operations Q A ε α σ ι) (w : σ) : Ordered O w (.start w) where
  alone i j h _ := by
    obtain ⟨op, status, h, -⟩ := h
    cases h
  locked i h := by
    obtain ⟨op, status, h, -⟩ := h
    cases h
  inside i op d h := by cases h
  idle _ := .nil
  past e he := by cases he
  nodup := .nil
  told i op result h := by
    rcases h with h | h
    · cases h
    · cases h

section keep

variable {w : σ} {i : Nat} {op : ι}

theorem State.At.holds {status : Status Q A ε α} (h : s.At i op status) (hstatus : status.holds = true) : s.Holds i :=
  ⟨op, status, h, hstatus⟩

/-- Nothing happens inside. -/
theorem Ordered.quiet (h : Ordered O w s) (hshared : t.shared = s.shared) (hended : t.ended = s.ended)
    (hinside : ∀ i op d, t.At i op (.inside d) ↔ s.At i op (.inside d))
    (hholds : ∀ i, t.Holds i → s.Holds i ∧ t.locked = true)
    (hpast : ∀ i op status, s.At i op status → status.past = true → ∃ status', t.At i op status' ∧ status'.past = true)
    (htold : ∀ i op result, t.At i op (.leaves result) ∨ t.At i op (.returned result) →
      s.At i op (.leaves result) ∨ s.At i op (.returned result)) : Ordered O w t where
  alone i j hi hj := h.alone i j (hholds i hi).1 (hholds j hj).1
  locked i hi := (hholds i hi).2
  inside i op d hd := by
    rw [hended, hshared]
    exact h.inside i op d ((hinside i op d).mp hd)
  idle hidle := by
    rw [hended, hshared]
    exact h.idle fun i op d hd => hidle i op d ((hinside i op d).mpr hd)
  past e he := by
    rw [hended] at he
    obtain ⟨op, status, hat, hstatus⟩ := h.past e he
    obtain ⟨status', hat', hstatus'⟩ := hpast _ _ _ hat hstatus
    exact ⟨op, status', hat', hstatus'⟩
  nodup := by
    rw [hended]
    exact h.nodup
  told i op result hi := by
    rw [hended]
    exact h.told i op result (htold i op result hi)

theorem Ordered.call (h : Ordered O w s) (op : ι) :
    Ordered O w { s with callers := s.callers ++ [⟨op, .waits (O.tries op)⟩] } := by
  have hat (j : Nat) (op' : ι) (status : Status Q A ε α) :
      (s.callers ++ [⟨op, .waits (O.tries op)⟩])[j]? = some ⟨op', status⟩ ↔
        s.At j op' status ∨ j = s.callers.length ∧ op' = op ∧ status = .waits (O.tries op) := by
    rw [State.At, List.getElem?_append]
    split_ifs with hlt
    · simp [Nat.ne_of_lt hlt]
    · rw [List.getElem?_eq_none (Nat.not_lt.mp hlt), List.getElem?_singleton]
      by_cases hj : j = s.callers.length
      · simp [hj, eq_comm]
      · have : j - s.callers.length ≠ 0 := by omega
        simp [hj, this]
  refine h.quiet rfl rfl (fun j op' d => ?_) (fun j hj => ?_) (fun j op' status hj hstatus => ?_) fun j op' result hj => ?_
  · rw [State.At, hat]
    simp
  · obtain ⟨op', status, hj, hstatus⟩ := hj
    obtain hj | ⟨-, -, rfl⟩ := (hat _ _ _).mp hj
    · exact ⟨hj.holds hstatus, h.locked j (hj.holds hstatus)⟩
    · cases hstatus
  · exact ⟨status, (hat _ _ _).mpr (.inl hj), hstatus⟩
  · rw [State.At, State.At, hat, hat] at hj
    simpa using hj

theorem Ordered.stays {n : Nat} {status : Status Q A ε α} (h : Ordered O w s) (hi : s.At i op (.waits n))
    (hstatus : (∃ m, status = .waits m) ∨ (∃ e, status = .refused e) ∨ status = .dead) :
    Ordered O w (s.become i op status) := by
  have hat := at_of_callers hi (s.become i op status) rfl
  have hholds : status.holds = false := by
    obtain ⟨m, rfl⟩ | ⟨e, rfl⟩ | rfl := hstatus <;> rfl
  refine h.quiet rfl rfl (fun j op' d => ?_) (fun j hj => ?_) (fun j op' status' hj hpast => ?_) fun j op' result hj => ?_
  · rw [hat]
    constructor
    · rintro (⟨-, -, rfl⟩ | ⟨-, hj⟩)
      · cases hholds
      · exact hj
    · refine fun hj => .inr ⟨?_, hj⟩
      rintro rfl
      cases (at_unique hi hj).2
  · obtain ⟨op', status', hj, hstatus'⟩ := hj
    obtain ⟨-, -, rfl⟩ | ⟨-, hj⟩ := (hat _ _ _).mp hj
    · rw [hholds] at hstatus'
      cases hstatus'
    · exact ⟨hj.holds hstatus', h.locked j (hj.holds hstatus')⟩
  · refine ⟨status', (hat _ _ _).mpr (.inr ⟨?_, hj⟩), hpast⟩
    rintro rfl
    rw [← (at_unique hi hj).2] at hpast
    cases hpast
  · rw [hat, hat] at hj
    obtain (⟨-, -, rfl⟩ | ⟨-, hj⟩) | ⟨-, -, rfl⟩ | ⟨-, hj⟩ := hj
    · cases hholds
    · exact .inl hj
    · obtain ⟨m, hm⟩ | ⟨e, he⟩ | hdead := hstatus
      · cases hm
      · cases he
      · cases hdead
    · exact .inr hj

theorem Ordered.leaves {result : Except ε α} {status : Status Q A ε α} (h : Ordered O w s)
    (hi : s.At i op (.leaves result)) (hstatus : status = .returned result ∨ status = .dead) (locked : Bool) :
    Ordered O w { s.become i op status with locked := locked } := by
  have hat := at_of_callers hi { s.become i op status with locked := locked } rfl
  have hholds : status.holds = false := by
    obtain rfl | rfl := hstatus <;> rfl
  have hpast : status.past = true := by
    obtain rfl | rfl := hstatus <;> rfl
  refine h.quiet rfl rfl (fun j op' d => ?_) (fun j hj => ?_) (fun j op' status' hj hstatus' => ?_) fun j op' result' hj => ?_
  · rw [hat]
    constructor
    · rintro (⟨-, -, rfl⟩ | ⟨-, hj⟩)
      · cases hholds
      · exact hj
    · refine fun hj => .inr ⟨?_, hj⟩
      rintro rfl
      cases (at_unique hi hj).2
  · -- the one that leaves was the only one inside
    obtain ⟨op', status', hj, hstatus'⟩ := hj
    obtain ⟨-, -, rfl⟩ | ⟨hne, hj⟩ := (hat _ _ _).mp hj
    · rw [hholds] at hstatus'
      cases hstatus'
    · exact absurd (h.alone j i (hj.holds hstatus') (hi.holds rfl)) hne
  · by_cases hji : j = i
    · subst hji
      obtain ⟨rfl, -⟩ := at_unique hi hj
      exact ⟨status, (hat _ _ _).mpr (.inl ⟨rfl, rfl, rfl⟩), hpast⟩
    · exact ⟨status', (hat _ _ _).mpr (.inr ⟨hji, hj⟩), hstatus'⟩
  · rw [hat, hat] at hj
    obtain (⟨-, -, rfl⟩ | ⟨-, hj⟩) | ⟨rfl, rfl, hreturned⟩ | ⟨-, hj⟩ := hj
    · cases hholds
    · exact .inl hj
    · obtain rfl | rfl := hstatus
      · cases hreturned
        exact .inl hi
      · cases hreturned
    · exact .inr hj

theorem Ordered.enters {n : Nat} (h : Ordered O w s) (hi : s.At i op (.waits n)) (hfree : s.locked = false) :
    Ordered O w { s.become i op (.inside (O.program op)) with locked := true } := by
  have hat := at_of_callers hi { s.become i op (.inside (O.program op)) with locked := true } rfl
  have hnobody (j : Nat) : ¬s.Holds j := fun hj => by
    have := h.locked j hj
    rw [hfree] at this
    cases this
  have honly (j : Nat) (hj : State.Holds { s.become i op (.inside (O.program op)) with locked := true } j) : j = i := by
    obtain ⟨op', status', hj, hstatus'⟩ := hj
    obtain ⟨rfl, -⟩ | ⟨-, hj⟩ := (hat _ _ _).mp hj
    · rfl
    · exact absurd (hj.holds hstatus') (hnobody j)
  constructor
  · intro j k hj hk
    rw [honly j hj, honly k hk]
  · exact fun _ _ => rfl
  · intro j op' d hj
    obtain ⟨rfl, rfl, hd⟩ | ⟨-, hj⟩ := (hat _ _ _).mp hj
    · cases hd
      exact ⟨s.shared, h.idle fun k op d hk => hnobody k (hk.holds rfl), .start⟩
    · exact absurd (hj.holds rfl) (hnobody j)
  · intro hidle
    exact absurd ((hat _ _ _).mpr (.inl ⟨rfl, rfl, rfl⟩)) (hidle i op (O.program op))
  · intro e he
    obtain ⟨op', status, he, hstatus⟩ := h.past e he
    refine ⟨op', status, (hat _ _ _).mpr (.inr ⟨fun heq => ?_, he⟩), hstatus⟩
    rw [heq] at he
    rw [← (at_unique hi he).2] at hstatus
    cases hstatus
  · exact h.nodup
  · intro j op' result hj
    rw [hat, hat] at hj
    obtain (⟨-, -, hstatus⟩ | ⟨-, hj⟩) | ⟨-, -, hstatus⟩ | ⟨-, hj⟩ := hj
    · cases hstatus
    · exact h.told j op' result (.inl hj)
    · cases hstatus
    · exact h.told j op' result (.inr hj)

/-- The one inside goes on. -/
theorem Ordered.asks {q : Q} {next : A q → Dialogue Q A ε α} (h : Ordered O w s) (hi : s.At i op (.inside (.ask q next))) :
    Ordered O w { s.become i op (.inside (next (O.handler op s.shared q).1)) with shared := (O.handler op s.shared q).2 } := by
  have hat := at_of_callers hi
    { s.become i op (.inside (next (O.handler op s.shared q).1)) with shared := (O.handler op s.shared q).2 } rfl
  have hholds (j : Nat) (hj : State.Holds { s.become i op (.inside (next (O.handler op s.shared q).1)) with
      shared := (O.handler op s.shared q).2 } j) : s.Holds j := by
    obtain ⟨op', status', hj, hstatus'⟩ := hj
    obtain ⟨rfl, -⟩ | ⟨-, hj⟩ := (hat _ _ _).mp hj
    · exact hi.holds rfl
    · exact hj.holds hstatus'
  constructor
  · exact fun j k hj hk => h.alone j k (hholds j hj) (hholds k hk)
  · exact fun j hj => h.locked j (hholds j hj)
  · intro j op' d hj
    obtain ⟨rfl, rfl, hd⟩ | ⟨hne, hj⟩ := (hat _ _ _).mp hj
    · cases hd
      obtain ⟨w', hserial, hserved⟩ := h.inside _ _ _ hi
      exact ⟨w', hserial, hserved.ask⟩
    · exact absurd (h.alone j i (hj.holds rfl) (hi.holds rfl)) hne
  · intro hidle
    exact absurd ((hat _ _ _).mpr (.inl ⟨rfl, rfl, rfl⟩)) (hidle i op _)
  · intro e he
    obtain ⟨op', status, he, hstatus⟩ := h.past e he
    refine ⟨op', status, (hat _ _ _).mpr (.inr ⟨fun heq => ?_, he⟩), hstatus⟩
    rw [heq] at he
    rw [← (at_unique hi he).2] at hstatus
    cases hstatus
  · exact h.nodup
  · intro j op' result hj
    rw [hat, hat] at hj
    obtain (⟨-, -, hstatus⟩ | ⟨-, hj⟩) | ⟨-, -, hstatus⟩ | ⟨-, hj⟩ := hj
    · cases hstatus
    · exact h.told j op' result (.inl hj)
    · cases hstatus
    · exact h.told j op' result (.inr hj)

/-- The operation of the one inside is over, with this entry: what has gone one after the other goes on with it. -/
theorem Ordered.over {d : Dialogue Q A ε α} {status : Status Q A ε α} {result : Option (Except ε α)} {locked : Bool}
    (h : Ordered O w s) (hi : s.At i op (.inside d)) (hpast : status.past = true)
    (hserial : ∀ w', Serial O w s.ended w' → Served (O.handler op) (O.program op) w' d s.shared →
      Serial O w (s.ended ++ [⟨i, op, result⟩]) s.shared)
    (hlocked : status.holds = true → locked = true)
    (htold : ∀ r, status = .leaves r ∨ status = .returned r → result = some r) :
    Ordered O w { s.become i op status with locked := locked, ended := s.ended ++ [⟨i, op, result⟩] } := by
  have hat := at_of_callers hi { s.become i op status with locked := locked, ended := s.ended ++ [⟨i, op, result⟩] } rfl
  -- the others are outside, before and after
  have hothers {j : Nat} {op' : ι} {status' : Status Q A ε α} (hne : j ≠ i) (hj : s.At j op' status') :
      status'.holds = false := by
    cases hstatus' : status'.holds with
    | false => rfl
    | true => exact absurd (h.alone j i (hj.holds hstatus') (hi.holds rfl)) hne
  have honly (j : Nat) (hj : State.Holds { s.become i op status with
      locked := locked, ended := s.ended ++ [⟨i, op, result⟩] } j) : j = i ∧ status.holds = true := by
    obtain ⟨op', status', hj, hstatus'⟩ := hj
    obtain ⟨rfl, -, rfl⟩ | ⟨hne, hj⟩ := (hat _ _ _).mp hj
    · exact ⟨rfl, hstatus'⟩
    · rw [hothers hne hj] at hstatus'
      cases hstatus'
  constructor
  · intro j k hj hk
    rw [(honly j hj).1, (honly k hk).1]
  · exact fun j hj => hlocked (honly j hj).2
  · intro j op' d' hj
    obtain ⟨-, -, rfl⟩ | ⟨hne, hj⟩ := (hat _ _ _).mp hj
    · cases hpast
    · cases hothers hne hj
  · intro _
    obtain ⟨w', hw', hserved⟩ := h.inside i op d hi
    exact hserial w' hw' hserved
  · intro e he
    obtain he | he := List.mem_append.mp he
    · obtain ⟨op', status', hat', hstatus'⟩ := h.past e he
      refine ⟨op', status', (hat _ _ _).mpr (.inr ⟨fun heq => ?_, hat'⟩), hstatus'⟩
      rw [heq] at hat'
      rw [← (at_unique hi hat').2] at hstatus'
      cases hstatus'
    · rw [List.mem_singleton.mp he]
      exact ⟨op, status, (hat _ _ _).mpr (.inl ⟨rfl, rfl, rfl⟩), hpast⟩
  · have hnew : i ∉ s.ended.map Ended.caller := fun hmem => by
      obtain ⟨e, he, rfl⟩ := List.mem_map.mp hmem
      obtain ⟨op', status', hat', hstatus'⟩ := h.past e he
      rw [← (at_unique hi hat').2] at hstatus'
      cases hstatus'
    rw [List.map_append]
    exact List.nodup_append_comm.mp (List.nodup_cons.mpr ⟨hnew, h.nodup⟩)
  · intro j op' r hj
    rw [hat, hat] at hj
    obtain (⟨rfl, rfl, hr⟩ | ⟨-, hj⟩) | ⟨rfl, rfl, hr⟩ | ⟨-, hj⟩ := hj
    · exact List.mem_append_right _ (by simp [htold r (.inl hr.symm)])
    · exact List.mem_append_left _ (h.told j op' r (.inl hj))
    · exact List.mem_append_right _ (by simp [htold r (.inr hr.symm)])
    · exact List.mem_append_left _ (h.told j op' r (.inr hj))

/-- **Every step keeps the order.** -/
theorem Ordered.step {a : Action ι} (h : Ordered O w s) (hstep : CriticalSection.step O s a = some t) : Ordered O w t := by
  cases steps_of_step hstep with
  | call op => exact h.call op
  | stays hi hstatus => exact h.stays hi hstatus
  | enters hi hfree hop => exact h.enters hi hfree
  | asks hi => exact h.asks hi
  | ends hi hd =>
    refine h.over hi rfl (fun w' hw' hserved => .whole hw' (hserved.serve_eq.trans (hd _))) (fun _ => h.locked _ (hi.holds rfl))
      fun r hr => ?_
    obtain hr | hr := hr
    · cases hr
      rfl
    · cases hr
  | stops hi locked hlocked =>
    refine h.over hi rfl (fun w' hw' hserved => .stopped hw' hserved) (fun hholds => by cases hholds) fun r hr => ?_
    obtain hr | hr := hr
    · cases hr
    · cases hr
  | leaves hi hstatus locked => exact h.leaves hi hstatus locked

/-- Whoever is inside, or was, could have the lock. -/
structure Admitted (O : Operations Q A ε α σ ι) (s : State Q A ε α σ ι) : Prop where
  inside : ∀ i op d, s.At i op (.inside d) → O.refusal op = none
  ended : ∀ e ∈ s.ended, O.refusal e.op = none

theorem admitted_step {a : Action ι} (h : Admitted O s) (hsteps : Steps O s a t) : Admitted O t := by
  have hset {i j : Nat} {op op' : ι} {status status₀ : Status Q A ε α} {d : Dialogue Q A ε α} (hi : s.At i op status₀)
      (hop : status.holds = true → O.refusal op = none) (hj : (s.become i op status).At j op' (.inside d)) :
      O.refusal op' = none := by
    obtain ⟨rfl, rfl, rfl⟩ | ⟨-, hj⟩ := (at_of_callers hi _ rfl _ _ _).mp hj
    · exact hop rfl
    · exact h.inside j op' d hj
  cases hsteps with
  | call op =>
    refine ⟨fun j op' d hj => ?_, h.ended⟩
    rw [State.At, List.getElem?_append] at hj
    split_ifs at hj with hlt
    · exact h.inside j op' d hj
    · have := List.mem_of_getElem? hj
      simp at this
  | stays hi hstatus =>
    refine ⟨fun j op' d hj => hset hi (fun hholds => ?_) hj, h.ended⟩
    obtain ⟨m, rfl⟩ | ⟨e, rfl⟩ | rfl := hstatus <;> cases hholds
  | enters hi hfree hop => exact ⟨fun j op' d hj => hset hi (fun _ => hop) hj, h.ended⟩
  | asks hi => exact ⟨fun j op' d hj => hset hi (fun _ => h.inside _ _ _ hi) hj, h.ended⟩
  | ends hi hd =>
    refine ⟨fun j op' d hj => hset hi (fun _ => h.inside _ _ _ hi) hj, fun e he => ?_⟩
    obtain he | he := List.mem_append.mp he
    · exact h.ended e he
    · rw [List.mem_singleton.mp he]
      exact h.inside _ _ _ hi
  | stops hi locked hlocked =>
    refine ⟨fun j op' d hj => hset hi (fun _ => h.inside _ _ _ hi) hj, fun e he => ?_⟩
    obtain he | he := List.mem_append.mp he
    · exact h.ended e he
    · rw [List.mem_singleton.mp he]
      exact h.inside _ _ _ hi
  | leaves hi hstatus locked =>
    refine ⟨fun j op' d hj => hset hi (fun hholds => ?_) hj, h.ended⟩
    obtain rfl | rfl := hstatus <;> cases hholds

/-- Where death leaves the lock taken, it stays taken: nobody is inside any more. -/
def Stuck (s : State Q A ε α σ ι) : Prop := (∃ e ∈ s.ended, e.result = none) → s.locked = true ∧ ∀ i, ¬s.Holds i

theorem stuck_step {a : Action ι} (h : Stuck s) (hordered : Ordered O w s) (hfrees : O.frees = false)
    (hsteps : Steps O s a t) : Stuck t := by
  have hgone {i : Nat} {op : ι} {status : Status Q A ε α} (hdead : ∃ e ∈ s.ended, e.result = none) (hi : s.At i op status) :
      status.holds = false := by
    cases hstatus : status.holds with
    | false => rfl
    | true => exact absurd (hi.holds hstatus) ((h hdead).2 i)
  have hset {i : Nat} {op : ι} {status status₀ : Status Q A ε α} (hdead : ∃ e ∈ s.ended, e.result = none)
      (hi : s.At i op status₀) (hstatus : status.holds = false) (j : Nat) : ¬(s.become i op status).Holds j := by
    rintro ⟨op', status', hj, hholds⟩
    obtain ⟨rfl, rfl, rfl⟩ | ⟨-, hj⟩ := (at_of_callers hi _ rfl _ _ _).mp hj
    · rw [hstatus] at hholds
      cases hholds
    · rw [hgone hdead hj] at hholds
      cases hholds
  intro hdead
  cases hsteps with
  | call op =>
    refine ⟨(h hdead).1, ?_⟩
    rintro j ⟨op', status', hj, hholds⟩
    rw [State.At, List.getElem?_append] at hj
    split_ifs at hj with hlt
    · rw [hgone hdead hj] at hholds
      cases hholds
    · obtain ⟨rfl, rfl⟩ := by simpa using List.mem_of_getElem? hj
      cases hholds
  | stays hi hstatus =>
    refine ⟨(h hdead).1, hset hdead hi ?_⟩
    obtain ⟨m, rfl⟩ | ⟨e, rfl⟩ | rfl := hstatus <;> rfl
  | enters hi hfree hop =>
    have hlocked := (h hdead).1
    rw [hfree] at hlocked
    cases hlocked
  | asks hi => cases hgone hdead hi
  | ends hi hd =>
    obtain ⟨e, he, hresult⟩ := hdead
    obtain he | he := List.mem_append.mp he
    · cases hgone ⟨e, he, hresult⟩ hi
    · rw [List.mem_singleton.mp he] at hresult
      cases hresult
  | stops hi locked hlocked =>
    refine ⟨?_, ?_⟩
    · simp [hlocked, hfrees, hordered.locked _ (hi.holds rfl)]
    · rintro j ⟨op', status', hj, hholds⟩
      obtain ⟨rfl, rfl, rfl⟩ | ⟨hne, hj⟩ := (at_of_callers hi _ rfl _ _ _).mp hj
      · cases hholds
      · exact hne (hordered.alone _ _ (hj.holds hholds) (hi.holds rfl))
  | leaves hi hstatus locked => cases hgone hdead hi

/-- Nothing is over after a death. -/
def Halted (s : State Q A ε α σ ι) : Prop := ∀ e ∈ s.ended.dropLast, e.result ≠ none

theorem halted_step {a : Action ι} (h : Halted s) (hstuck : Stuck s) (hsteps : Steps O s a t) : Halted t := by
  have hnext {i : Nat} {op : ι} {d : Dialogue Q A ε α} {e : Ended ε α ι} (hi : s.At i op (.inside d)) :
      ∀ e' ∈ (s.ended ++ [e]).dropLast, e'.result ≠ none := by
    rw [List.dropLast_concat]
    exact fun e' he' hdead => (hstuck ⟨e', he', hdead⟩).2 i (hi.holds rfl)
  cases hsteps with
  | call op => exact h
  | stays hi hstatus => exact h
  | enters hi hfree hop => exact h
  | asks hi => exact h
  | ends hi hd => exact hnext hi
  | stops hi locked hlocked => exact hnext hi
  | leaves hi hstatus locked => exact h

/-- The operations that were not cut short. -/
def State.whole (s : State Q A ε α σ ι) : List (Ended ε α ι) := s.ended.filter fun e => e.result.isSome

/-- Somebody is in the operation, or has died in it. -/
def State.Begun (s : State Q A ε α σ ι) (op : ι) : Prop := (∃ i d, s.At i op (.inside d)) ∨ ∃ i, ⟨i, op, none⟩ ∈ s.ended

theorem whole_eq (h : ∀ e ∈ s.ended, e.result ≠ none) : s.whole = s.ended :=
  List.filter_eq_self.mpr fun e he => Option.isSome_iff_ne_none.mpr (h e he)

theorem result_of_mem_whole {e : Ended ε α ι} (h : e ∈ s.whole) : e.result ≠ none :=
  Option.isSome_iff_ne_none.mp (List.mem_filter.mp h).2

/-- The state is where the whole operations lead, or somebody has begun one from there. -/
theorem exists_serial_whole (h : Ordered O w s) (hstuck : Stuck s) (hhalted : Halted s) :
    ∃ w', Serial O w s.whole w' ∧
      (s.shared = w' ∨ ∃ op d, s.Begun op ∧ Served (O.handler op) (O.program op) w' d s.shared) := by
  by_cases hin : ∃ i op d, s.At i op (.inside d)
  · obtain ⟨i, op, d, hi⟩ := hin
    obtain ⟨w', hserial, hserved⟩ := h.inside i op d hi
    rw [whole_eq fun e he hdead => (hstuck ⟨e, he, hdead⟩).2 i (hi.holds rfl)]
    exact ⟨w', hserial, .inr ⟨op, d, .inl ⟨i, d, hi⟩, hserved⟩⟩
  · have hserial := h.idle fun i op d hi => hin ⟨i, op, d, hi⟩
    by_cases hlived : ∀ e ∈ s.ended, e.result ≠ none
    · rw [whole_eq hlived]
      exact ⟨s.shared, hserial, .inl rfl⟩
    · unfold Halted at hhalted
      unfold State.whole State.Begun
      generalize s.ended = es, s.shared = w' at *
      cases hserial with
      | nil => exact absurd (fun e he => by cases he) hlived
      | @whole es w₁ w' i op result hserial hop =>
        rw [List.dropLast_concat] at hhalted
        refine absurd (fun e he => ?_) hlived
        obtain he | he := List.mem_append.mp he
        · exact hhalted e he
        · simp [List.mem_singleton.mp he]
      | @stopped es w₁ w' i op d hserial hserved =>
        rw [List.dropLast_concat] at hhalted
        have hwhole : (es.filter fun e => e.result.isSome) = es :=
          List.filter_eq_self.mpr fun e he => Option.isSome_iff_ne_none.mpr (hhalted e he)
        refine ⟨w₁, ?_, .inr ⟨op, d, .inr ⟨i, List.mem_append_right _ List.mem_cons_self⟩, hserved⟩⟩
        rw [List.filter_append, hwhole]
        simpa using hserial

/-- **Whatever the order of the steps**, the operations go one after the other, and each could have the lock. -/
theorem ordered_always (O : Operations Q A ε α σ ι) (w : σ) (as : List (Action ι)) :
    Always (CriticalSection.step O) (fun s => Ordered O w s ∧ Admitted O s) (.start w) as := by
  refine always_of_meets (C := fun _ _ => True) (fun s a t h _ hstep => ?_) ⟨ordered_start O w, ?_⟩
    (meets_of_forall (fun _ _ => trivial) _ _)
  · exact ⟨h.1.step hstep, admitted_step h.2 (steps_of_step hstep)⟩
  · exact ⟨fun i op d h => (by cases h), fun e he => (by cases he)⟩

/-- Where death leaves the lock taken, it is the end. -/
theorem stuck_always (O : Operations Q A ε α σ ι) (hfrees : O.frees = false) (w : σ) (as : List (Action ι)) :
    Always (CriticalSection.step O) (fun s => Stuck s ∧ Halted s) (.start w) as := by
  refine Always.mono (P := fun s => Ordered O w s ∧ Stuck s ∧ Halted s) (fun s h => h.2)
    (always_of_meets (C := fun _ _ => True) (fun s a t h _ hstep => ?_) ⟨ordered_start O w, ?_, ?_⟩
      (meets_of_forall (fun _ _ => trivial) _ _))
  · obtain ⟨hordered, hstuck, hhalted⟩ := h
    have hsteps := steps_of_step hstep
    exact ⟨hordered.step hstep, stuck_step hstuck hordered hfrees hsteps, halted_step hhalted hstuck hsteps⟩
  · rintro ⟨e, he, -⟩
    cases he
  · exact fun e he => (by cases he)

/-- The operations that are called satisfy `C`. -/
structure Called (C : ι → Prop) (s : State Q A ε α σ ι) : Prop where
  callers : ∀ i op status, s.At i op status → C op
  ended : ∀ e ∈ s.ended, C e.op

/-- A call meets `C`. -/
def Calls (C : ι → Prop) (_ : State Q A ε α σ ι) : Action ι → Prop
  | .call op => C op
  | _ => True

theorem called_step {C : ι → Prop} {a : Action ι} (h : Called C s) (ha : Calls C s a) (hsteps : Steps O s a t) :
    Called C t := by
  have hset {i : Nat} {op : ι} {status status₀ : Status Q A ε α} (hi : s.At i op status₀) (t : State Q A ε α σ ι)
      (ht : t.callers = s.callers.set i ⟨op, status⟩) (j : Nat) (op' : ι) (status' : Status Q A ε α)
      (hj : t.At j op' status') : C op' := by
    obtain ⟨-, rfl, -⟩ | ⟨-, hj⟩ := (at_of_callers hi t ht j op' status').mp hj
    · exact h.callers i _ _ hi
    · exact h.callers j op' status' hj
  have hadd {i : Nat} {op : ι} {status : Status Q A ε α} {result : Option (Except ε α)} (hi : s.At i op status) :
      ∀ e ∈ s.ended ++ [⟨i, op, result⟩], C e.op := fun e he => by
    obtain he | he := List.mem_append.mp he
    · exact h.ended e he
    · rw [List.mem_singleton.mp he]
      exact h.callers i op status hi
  cases hsteps with
  | call op =>
    refine ⟨fun j op' status' hj => ?_, h.ended⟩
    rw [State.At, List.getElem?_append] at hj
    split_ifs at hj with hlt
    · exact h.callers j op' status' hj
    · obtain ⟨rfl, -⟩ := by simpa using List.mem_of_getElem? hj
      exact ha
  | stays hi hstatus => exact ⟨hset hi _ rfl, h.ended⟩
  | enters hi hfree hop => exact ⟨hset hi _ rfl, h.ended⟩
  | asks hi => exact ⟨hset hi _ rfl, h.ended⟩
  | ends hi hd => exact ⟨hset hi _ rfl, hadd hi⟩
  | stops hi locked hlocked => exact ⟨hset hi _ rfl, hadd hi⟩
  | leaves hi hstatus locked => exact ⟨hset hi _ rfl, h.ended⟩

theorem calls_of_forall {C : ι → Prop} {as : List (Action ι)} (h : ∀ op, .call op ∈ as → C op) :
    Meets (CriticalSection.step O) (Calls C) s as := by
  induction as generalizing s with
  | nil => trivial
  | cons a as ih =>
    refine fun t _ => ⟨?_, ih fun op hop => h op (List.mem_cons_of_mem _ hop)⟩
    cases a with
    | call op => exact h op List.mem_cons_self
    | go i => trivial
    | die i => trivial
    | leak i => trivial

/-- **What every operation keeps at its every question is kept by all of them in any order**, wherever they are cut short:
it is enough to look at one operation alone. -/
theorem Invariant.always {C : ι → Prop} {I : List (Ended ε α ι) → σ → Prop} {w : σ} {as : List (Action ι)}
    (hI : Invariant O C I) (hstart : I [] w) (hcalls : ∀ op, .call op ∈ as → C op) :
    Always (CriticalSection.step O) (fun s => I s.ended s.shared) (.start w) as := by
  refine Always.mono (P := fun s => Ordered O w s ∧ Called C s) (fun s h => ?_)
    (always_of_meets (fun s a t h ha hstep => ?_) ⟨ordered_start O w, fun i op status hi => ?_, fun e he => ?_⟩
      (calls_of_forall hcalls))
  · obtain ⟨hordered, hcalled⟩ := h
    by_cases hin : ∃ i op d, s.At i op (.inside d)
    · obtain ⟨i, op, d, hi⟩ := hin
      obtain ⟨w', hserial, hserved⟩ := hordered.inside i op d hi
      have hw' := hserial.keeps hI hstart hcalled.ended
      exact (hserved.upholds (hI.keep _ i op w' (hcalled.callers i op _ hi) hw')).head
    · exact (hordered.idle fun i op d hi => hin ⟨i, op, d, hi⟩).keeps hI hstart hcalled.ended
  · exact ⟨h.1.step hstep, called_step h.2 ha (steps_of_step hstep)⟩
  · cases hi
  · cases he

end keep

end Nerve.CriticalSection
