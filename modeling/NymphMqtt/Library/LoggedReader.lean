import Mathlib.Init

/-! Computations that read a buffer by position, update a state and may exit early.
Every position read is kept in a log, so that staying inside the buffer can be stated
of the computation itself and proved step by step. -/

namespace NymphMqtt.Library.LoggedReader

structure Outcome (ε σ α : Type) where
  result : Except ε α
  state : σ
  reads : List Nat

def Reader (ε σ α : Type) := σ → Outcome ε σ α

variable {ε σ α β : Type}

namespace Reader

def pure (a : α) : Reader ε σ α := fun s => ⟨.ok a, s, []⟩

def bind (x : Reader ε σ α) (f : α → Reader ε σ β) : Reader ε σ β := fun s =>
  match (x s).result with
  | .error e => ⟨.error e, (x s).state, (x s).reads⟩
  | .ok a =>
      let y := f a (x s).state
      ⟨y.result, y.state, (x s).reads ++ y.reads⟩

instance : Monad (Reader ε σ) where
  pure := pure
  bind := bind

/-- Leave the whole computation. -/
def exit (e : ε) : Reader ε σ α := fun s => ⟨.error e, s, []⟩

def update (f : σ → σ) : Reader ε σ Unit := fun s => ⟨.ok (), f s, []⟩

def get : Reader ε σ σ := fun s => ⟨.ok s, s, []⟩

/-- Read `value`, which stands at `positions`. -/
def read (positions : List Nat) (value : α) : Reader ε σ α := fun s => ⟨.ok value, s, positions⟩

end Reader

section Run
variable (x : Reader ε σ α) (f : α → Reader ε σ β) (s : σ)

theorem bind_ok {a : α} (h : (x s).result = .ok a) :
    (x >>= f) s = ⟨(f a (x s).state).result, (f a (x s).state).state,
      (x s).reads ++ (f a (x s).state).reads⟩ := by
  change Reader.bind x f s = _
  simp only [Reader.bind, h]

theorem bind_error {e : ε} (h : (x s).result = .error e) :
    (x >>= f) s = ⟨.error e, (x s).state, (x s).reads⟩ := by
  change Reader.bind x f s = _
  simp only [Reader.bind, h]

theorem bind_run {a : α} {t : σ} {reads : List Nat} (h : x s = ⟨.ok a, t, reads⟩) :
    (x >>= f) s = ⟨(f a t).result, (f a t).state, reads ++ (f a t).reads⟩ := by
  rw [bind_ok x f s (congrArg Outcome.result h), h]

theorem bind_exit {e : ε} {t : σ} {reads : List Nat} (h : x s = ⟨.error e, t, reads⟩) :
    (x >>= f) s = ⟨.error e, t, reads⟩ := by
  rw [bind_error x f s (congrArg Outcome.result h), h]

@[simp] theorem pure_run (a : α) : (Pure.pure a : Reader ε σ α) s = ⟨.ok a, s, []⟩ := rfl

@[simp] theorem exit_run (e : ε) : (Reader.exit e : Reader ε σ α) s = ⟨.error e, s, []⟩ := rfl

@[simp] theorem exit_bind_run (e : ε) :
    ((Reader.exit e : Reader ε σ α) >>= f) s = ⟨.error e, s, []⟩ := rfl

@[simp] theorem pure_bind_run (a : α) : ((Pure.pure a : Reader ε σ α) >>= f) s = f a s := rfl

@[simp] theorem update_bind_run (g : σ → σ) (f : Unit → Reader ε σ β) :
    (Reader.update g >>= f) s = f () (g s) := rfl

@[simp] theorem get_bind_run (f : σ → Reader ε σ β) : (Reader.get >>= f) s = f s s := rfl

@[simp] theorem read_bind_run (positions : List Nat) (a : α) :
    (Reader.read positions a >>= f) s =
      ⟨(f a s).result, (f a s).state, positions ++ (f a s).reads⟩ := rfl

end Run

theorem bind_congr_run {x y : Reader ε σ α} {f g : α → Reader ε σ β} {s : σ} (first : x s = y s)
    (second : ∀ a t, (x s).state = t → f a t = g a t) :
    (x >>= f) s = (y >>= g) s := by
  cases result : (x s).result with
  | error e => rw [bind_error x f s result, bind_error y g s (first ▸ result), first]
  | ok a => rw [bind_ok x f s result, bind_ok y g s (first ▸ result), second a _ rfl, first]

theorem bind_pure_run (x : Reader ε σ α) (s : σ) : (x >>= Pure.pure) s = x s := by
  cases result : (x s).result with
  | error e => rw [bind_error x _ s result, ← result]
  | ok a =>
    rw [bind_ok x _ s result, pure_run, List.append_nil, ← result]

theorem bind_assoc_run {γ : Type} (x : Reader ε σ α) (f : α → Reader ε σ β) (g : β → Reader ε σ γ)
    (s : σ) : ((x >>= f) >>= g) s = (x >>= fun a => f a >>= g) s := by
  cases result : (x s).result with
  | error e => rw [bind_exit _ g s (bind_error x f s result), bind_error x _ s result]
  | ok a =>
    have first := bind_ok x f s result
    have whole := bind_ok x (fun a => f a >>= g) s result
    cases result' : (f a (x s).state).result with
    | error e =>
      rw [result'] at first
      rw [bind_error (f a) g _ result'] at whole
      rw [bind_exit _ g s first, whole]
    | ok b =>
      rw [result'] at first
      rw [bind_ok (f a) g _ result'] at whole
      rw [bind_run _ g s first, whole, List.append_assoc]

/-! ### Frames -/

/-- Whatever the computation does, a view of the state is the same after it. -/
def Keeps {γ : Type} (view : σ → γ) (x : Reader ε σ α) : Prop :=
  ∀ s, view (x s).state = view s

namespace Keeps
variable {γ : Type} {view : σ → γ}

theorem pure (a : α) : Keeps view (Pure.pure a : Reader ε σ α) := fun _ => rfl

theorem exit (e : ε) : Keeps view (Reader.exit e : Reader ε σ α) := fun _ => rfl

theorem get : Keeps view (Reader.get : Reader ε σ σ) := fun _ => rfl

theorem read (positions : List Nat) (a : α) :
    Keeps view (Reader.read positions a : Reader ε σ α) := fun _ => rfl

theorem update {f : σ → σ} (same : ∀ s, view (f s) = view s) :
    Keeps view (Reader.update f : Reader ε σ Unit) := same

theorem bind {x : Reader ε σ α} {f : α → Reader ε σ β} (first : Keeps view x)
    (second : ∀ a, Keeps view (f a)) : Keeps view (x >>= f) := by
  intro s
  cases h : (x s).result with
  | error e => rw [bind_error x f s h]; exact first s
  | ok a =>
    rw [bind_ok x f s h]
    exact (second a _).trans (first s)

theorem ite {c : Prop} [Decidable c] {x y : Reader ε σ α} (left : Keeps view x)
    (right : Keeps view y) : Keeps view (if c then x else y) := by
  split
  · exact left
  · exact right

end Keeps

/-! ### Slots -/

/-- A part of the state that is stored as a whole. -/
structure Slot (σ τ : Type) where
  view : σ → τ
  store : τ → σ → σ
  stored : ∀ value s, view (store value s) = value

/-- Storing in the second slot leaves the first one alone. -/
def Slot.Apart {σ τ : Type} (kept written : Slot σ τ) : Prop :=
  ∀ value s, kept.view (written.store value s) = kept.view s

end NymphMqtt.Library.LoggedReader
