import Mathlib.Logic.Basic
/-!
# Programs that take a mutex

A program reads and changes a state that has a mutex in it.
-/

namespace OrbisKV.Lib

structure Mutex (σ : Type) where
  held : σ → Bool
  put : Bool → σ → σ
  held_put : ∀ b s, held (put b s) = b
  put_put : ∀ b c s, put b (put c s) = put b s
  put_held : ∀ s, put (held s) s = s

abbrev Program (σ : Type) := StateT σ Option

namespace Program

variable {σ α β : Type}

theorem bind_apply (p : Program σ α) (f : α → Program σ β) (s : σ) :
    (p >>= f) s = (p s).bind fun r => f r.1 r.2 := rfl

theorem bind_of_run {p : Program σ α} {s t : σ} {a : α} (h : p s = some (a, t))
    (f : α → Program σ β) : (p >>= f) s = f a t := by
  rw [bind_apply, h]
  rfl

@[simp] theorem get_bind (f : σ → Program σ β) (s : σ) : (get >>= f) s = f s s := rfl

@[simp] theorem modify_bind (g : σ → σ) (f : Unit → Program σ β) (s : σ) :
    ((modify g : Program σ PUnit) >>= f) s = f () (g s) := rfl

end Program

namespace Mutex

variable {σ α β : Type} (m : Mutex σ)

def lock : Program σ Unit := fun s => if m.held s then none else some ((), m.put true s)

def unlock : Program σ Unit := fun s => if m.held s then some ((), m.put false s) else none

/-- The mutex is taken for the whole program, and released when it returns. -/
def deferUnlock (p : Program σ α) : Program σ α := do
  m.lock
  let a ← p
  m.unlock
  return a

def critical (f : σ → σ) : Program σ Unit := do
  m.lock
  modify f
  m.unlock

variable {m} {s t u : σ} {p : Program σ α} {f : Unit → Program σ β} {a : α} {b : β}

section

variable (h : m.held s = false)

include h

theorem put_false : m.put false s = s := by
  have hself := m.put_held s
  rwa [h] at hself

theorem lock_apply : m.lock s = some ((), m.put true s) := by
  rw [lock, h]
  rfl

theorem unlock_apply : m.unlock (m.put true s) = some ((), s) := by
  rw [unlock, m.held_put, m.put_put, put_false h]
  rfl

theorem lock_bind (f : Unit → Program σ β) :
    (m.lock >>= f) s = f () (m.put true s) := Program.bind_of_run (lock_apply h) f

theorem unlock_bind (f : Unit → Program σ β) :
    (m.unlock >>= f) (m.put true s) = f () s := Program.bind_of_run (unlock_apply h) f

end

variable (m) in
/-- Entered in `s` with the mutex free, the program returns in `t` with the mutex free. -/
structure Releases (p : Program σ α) (s : σ) (a : α) (t : σ) : Prop where
  free : m.held t = false
  run : p s = some (a, t)

variable (m) in
/-- Entered with the mutex held, the program returns with the mutex held. -/
structure Keeps (p : Program σ α) (s : σ) (a : α) (t : σ) : Prop where
  free : m.held t = false
  run : p (m.put true s) = some (a, m.put true t)

theorem Releases.pure (h : m.held s = false) (a : α) : m.Releases (Pure.pure a) s a s := ⟨h, rfl⟩

theorem Releases.bind {f : α → Program σ β} (hp : m.Releases p s a t)
    (hf : m.Releases (f a) t b u) : m.Releases (p >>= f) s b u :=
  ⟨hf.free, (Program.bind_of_run hp.run f).trans hf.run⟩

theorem Releases.get {f : σ → Program σ β} (hf : m.Releases (f s) s b u) :
    m.Releases (MonadState.get >>= f) s b u := ⟨hf.free, hf.run⟩

theorem Releases.set (hf : m.Releases (f ()) t b u) : m.Releases (MonadStateOf.set t >>= f) s b u :=
  ⟨hf.free, hf.run⟩

theorem Releases.modify {g : σ → σ} (hf : m.Releases (f ()) (g s) b u) :
    m.Releases (modifyGet (fun s => ((), g s)) >>= f) s b u :=
  ⟨hf.free, hf.run⟩

theorem Keeps.pure (h : m.held s = false) (a : α) : m.Keeps (Pure.pure a) s a s := ⟨h, rfl⟩

theorem Keeps.bind {f : α → Program σ β} (hp : m.Keeps p s a t) (hf : m.Keeps (f a) t b u) :
    m.Keeps (p >>= f) s b u :=
  ⟨hf.free, (Program.bind_of_run hp.run f).trans hf.run⟩

theorem Keeps.get {f : σ → Program σ β} (hf : m.Keeps (f (m.put true s)) s b u) :
    m.Keeps (MonadState.get >>= f) s b u := ⟨hf.free, hf.run⟩

theorem Keeps.set {t' : σ} (ht : t' = m.put true t) (hf : m.Keeps (f ()) t b u) :
    m.Keeps (MonadStateOf.set t' >>= f) s b u := by
  subst ht
  exact ⟨hf.free, hf.run⟩

section

variable (hs : m.held s = false)

include hs

theorem Keeps.unlocked {f : α → Program σ β} (hp : m.Releases p s a t)
    (hf : m.Keeps (f a) t b u) : m.Keeps (do m.unlock; let a ← p; m.lock; f a) s b u := by
  refine ⟨hf.free, ?_⟩
  rw [unlock_bind hs, Program.bind_of_run hp.run, lock_bind hp.free]
  exact hf.run

theorem Releases.deferUnlock (hp : m.Keeps p s a t) : m.Releases (m.deferUnlock p) s a t := by
  refine ⟨hp.free, ?_⟩
  rw [Mutex.deferUnlock, lock_bind hs, Program.bind_of_run hp.run, unlock_bind hp.free]
  rfl

theorem Releases.critical {f : σ → σ} (hf : f (m.put true s) = m.put true (f s))
    (hfree : m.held (f s) = false) : m.Releases (m.critical f) s () (f s) := by
  refine ⟨hfree, ?_⟩
  rw [Mutex.critical, lock_bind hs, Program.modify_bind, hf, unlock_apply hfree]

theorem Releases.critical_bind {f : σ → σ} {g : Unit → Program σ β}
    (hf : f (m.put true s) = m.put true (f s)) (hfree : m.held (f s) = false)
    (hg : m.Releases (g ()) (f s) b u) : m.Releases (m.critical f >>= g) s b u :=
  (Releases.critical hs hf hfree).bind hg

theorem Releases.lock_unlock {g : Unit → Program σ β}
    (hg : m.Releases (g ()) s b u) : m.Releases (m.lock >>= fun _ => m.unlock >>= g) s b u := by
  refine ⟨hg.free, ?_⟩
  rw [lock_bind hs, unlock_bind hs]
  exact hg.run

end

end Mutex

end OrbisKV.Lib
