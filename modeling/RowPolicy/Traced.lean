import RowPolicy.Event
import RowPolicy.Fault

/-!
# Computations that log

A `Traced` computation has an outcome, which may be a fault, and the events it emitted on the way. A
fault ends the computation; the events up to it remain. The outcome of a sequence of computations is
the sequence of their outcomes (`outcome_bind`), so logging never changes a result.
-/

namespace RowPolicy

/-- An outcome and the events on the way to it. -/
structure Traced (α : Type) where
  /-- The events, in order. -/
  events : List Event
  /-- The result, or the fault that ended the computation. -/
  outcome : Except Fault α

namespace Traced

variable {α β : Type}

instance : Monad Traced where
  pure a := ⟨[], .ok a⟩
  bind x f :=
    match x.outcome with
    | .ok a =>
      let y := f a
      ⟨x.events ++ y.events, y.outcome⟩
    | .error fault => ⟨x.events, .error fault⟩

/-- A computation that logs nothing. -/
def lift (outcome : Except Fault α) : Traced α := ⟨[], outcome⟩

/-- Emits an event. -/
def log (event : Event) : Traced Unit := ⟨[event], .ok ()⟩

/-- Emits events. -/
def logAll (events : List Event) : Traced Unit := ⟨events, .ok ()⟩

@[ext] theorem ext {x y : Traced α} (he : x.events = y.events) (ho : x.outcome = y.outcome) :
    x = y := by
  cases x; cases y; simp_all

@[simp] theorem outcome_pure (a : α) : (pure a : Traced α).outcome = .ok a := rfl

@[simp] theorem events_pure (a : α) : (pure a : Traced α).events = [] := rfl

@[simp] theorem outcome_lift (outcome : Except Fault α) : (lift outcome).outcome = outcome := rfl

@[simp] theorem events_lift (outcome : Except Fault α) : (lift outcome).events = [] := rfl

@[simp] theorem outcome_log (event : Event) : (log event).outcome = .ok () := rfl

@[simp] theorem events_log (event : Event) : (log event).events = [event] := rfl

@[simp] theorem outcome_logAll (events : List Event) : (logAll events).outcome = .ok () := rfl

@[simp] theorem events_logAll (events : List Event) : (logAll events).events = events := rfl

@[simp] theorem outcome_bind (x : Traced α) (f : α → Traced β) :
    (x >>= f).outcome = x.outcome >>= fun a => (f a).outcome := by
  obtain ⟨events, outcome⟩ := x
  cases outcome <;> rfl

theorem events_bind (x : Traced α) (f : α → Traced β) :
    (x >>= f).events = x.events ++ (match x.outcome with
      | .ok a => (f a).events
      | .error _ => []) := by
  obtain ⟨events, outcome⟩ := x
  cases outcome with
  | ok a => rfl
  | error fault => exact (List.append_nil events).symm

theorem bind_pure_id (x : Traced α) : (x >>= fun a => pure a) = x := by
  obtain ⟨events, outcome⟩ := x
  cases outcome with
  | ok a => exact Traced.ext (List.append_nil events) rfl
  | error fault => rfl

theorem bind_bind {γ : Type} (x : Traced α) (f : α → Traced β) (g : β → Traced γ) :
    (x >>= f >>= g) = x >>= fun a => f a >>= g := by
  obtain ⟨events, outcome⟩ := x
  cases outcome with
  | error fault => rfl
  | ok a =>
    apply Traced.ext
    · simp only [events_bind, outcome_bind, List.append_assoc]
      rfl
    · simp only [outcome_bind]
      rfl

instance : LawfulMonad Traced :=
  LawfulMonad.mk' Traced (fun x => bind_pure_id x)
    (fun _ _ => Traced.ext (List.nil_append _) rfl) bind_bind

end Traced

end RowPolicy
