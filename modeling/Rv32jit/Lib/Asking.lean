/-
# Computations that call their environment

A computation ends in a value, is aborted, or asks the environment something and goes on with the
answer.  What the environment answers is open: a run takes it from a function of the number of
calls so far and of the call, and leaves a log of the calls with their answers.
-/
import Mathlib.Tactic

namespace Rv32jit

/-- Computations of an `α` that make calls `C` and are answered by an `A`. -/
inductive Asking (C A α : Type)
  | ret (a : α)
  | abort
  | call (c : C) (k : A → Asking C A α)

namespace Asking

variable {C A α β : Type}

protected def bind : Asking C A α → (α → Asking C A β) → Asking C A β
  | ret a, f => f a
  | abort, _ => abort
  | call c k, f => call c fun a => (k a).bind f

instance : Monad (Asking C A) where
  pure := ret
  bind := Asking.bind

/-- A call by itself. -/
def ask (c : C) : Asking C A A := call c ret

/-- The result of a run, which is nothing after an abort, and its log. -/
def run (env : ℕ → C → A) : ℕ → Asking C A α → Option α × List (C × A)
  | _, ret a => (some a, [])
  | _, abort => (none, [])
  | n, call c k =>
    let a := env n c
    let r := run env (n + 1) (k a)
    (r.1, (c, a) :: r.2)

variable {env : ℕ → C → A} {n : ℕ}

@[simp] lemma run_pure (a : α) : run env n (pure a : Asking C A α) = (some a, []) := rfl

@[simp] lemma run_ret (a : α) : run env n (ret a : Asking C A α) = (some a, []) := rfl

@[simp] lemma run_abort : run env n (abort : Asking C A α) = (none, []) := rfl

@[simp] lemma run_call (c : C) (k : A → Asking C A α) :
    run env n (call c k) =
      ((run env (n + 1) (k (env n c))).1, (c, env n c) :: (run env (n + 1) (k (env n c))).2) := rfl

@[simp] lemma ask_bind (c : C) (f : A → Asking C A β) : ask c >>= f = call c f := rfl

@[simp] lemma pure_bind (a : α) (f : α → Asking C A β) : (pure a : Asking C A α) >>= f = f a := rfl

@[simp] lemma abort_bind (f : α → Asking C A β) : (abort : Asking C A α) >>= f = abort := rfl

/-- The second part of a run goes on with the calls of the first. -/
lemma run_bind (x : Asking C A α) (f : α → Asking C A β) (n : ℕ) :
    run env n (x >>= f) =
      match (run env n x).1 with
      | none => (none, (run env n x).2)
      | some a =>
        ((run env (n + (run env n x).2.length) (f a)).1,
          (run env n x).2 ++ (run env (n + (run env n x).2.length) (f a)).2) := by
  induction x generalizing n with
  | ret a => rfl
  | abort => rfl
  | call c k ih =>
    have h : run env n (call c k >>= f) =
        ((run env (n + 1) (k (env n c) >>= f)).1,
          (c, env n c) :: (run env (n + 1) (k (env n c) >>= f)).2) := rfl
    rw [h, ih (env n c) (n + 1), run_call]
    cases (run env (n + 1) (k (env n c))).1 with
    | none => rfl
    | some a => simp [Nat.add_assoc, Nat.add_comm 1]

/-- Nothing comes after an abort. -/
lemma run_bind_none {x : Asking C A α} (f : α → Asking C A β) (h : (run env n x).1 = none) :
    (run env n (x >>= f)).1 = none := by
  rw [run_bind, h]

/-- The second part of a run that has come to it. -/
lemma run_bind_some {x : Asking C A α} (f : α → Asking C A β) {a : α} {log : List (C × A)}
    (h : run env n x = (some a, log)) :
    run env n (x >>= f) =
      ((run env (n + log.length) (f a)).1, log ++ (run env (n + log.length) (f a)).2) := by
  rw [run_bind, h]

end Asking

end Rv32jit
