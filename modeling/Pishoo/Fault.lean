import Mathlib.Logic.Basic

namespace Pishoo

/-- What befalls one step. A step that fails or is cut short may leave part of its work behind. -/
inductive Fault (π : Type)
  | proceed
  | fail (leftover : π)
  | crash (leftover : π)

inductive Exit (ε α : Type)
  | ok (a : α)
  | err (e : ε)
  | crashed
  deriving DecidableEq

/-- A program over a state that outlives it. Each of its steps takes the next fault of the list,
and proceeds when the list is exhausted. -/
def Prog (π σ ε α : Type) : Type := List (Fault π) → σ → Exit ε α × σ × List (Fault π)

namespace Prog

variable {π σ ε α β : Type}

def ret (a : α) : Prog π σ ε α := fun fs s => (.ok a, s, fs)

def andThen (p : Prog π σ ε α) (f : α → Prog π σ ε β) : Prog π σ ε β := fun fs s =>
  match p fs s with
  | (.ok a, t, gs) => f a gs t
  | (.err e, t, gs) => (.err e, t, gs)
  | (.crashed, t, gs) => (.crashed, t, gs)

instance : Monad (Prog π σ ε) where
  pure := ret
  bind := andThen

def throw (e : ε) : Prog π σ ε α := fun fs s => (.err e, s, fs)

def get : Prog π σ ε σ := fun fs s => (.ok s, s, fs)

/-- A change of the memory, which cannot fail. -/
def modify (f : σ → σ) : Prog π σ ε Unit := fun fs s => (.ok (), f s, fs)

def step (failure : ε) (leave : π → σ → σ) (act : σ → Except ε σ) : Prog π σ ε Unit
  | .fail p :: fs, s => (.err failure, leave p s, fs)
  | .crash p :: fs, s => (.crashed, leave p s, fs)
  | .proceed :: fs, s => match act s with
    | .ok t => (.ok (), t, fs)
    | .error e => (.err e, s, fs)
  | [], s => match act s with
    | .ok t => (.ok (), t, [])
    | .error e => (.err e, s, [])

theorem get_bind (f : σ → Prog π σ ε α) (fs : List (Fault π)) (s : σ) :
    (get >>= f) fs s = f s fs s :=
  rfl

theorem bind_of_ok {p : Prog π σ ε α} {f : α → Prog π σ ε β} {fs gs : List (Fault π)} {s t : σ}
    {a : α} (h : p fs s = (.ok a, t, gs)) : (p >>= f) fs s = f a gs t := by
  change andThen p f fs s = _
  rw [andThen, h]

def attempt (p : Prog π σ ε α) : Prog π σ ε (Except ε α) := fun fs s =>
  match p fs s with
  | (.ok a, t, gs) => (.ok (.ok a), t, gs)
  | (.err e, t, gs) => (.ok (.error e), t, gs)
  | (.crashed, t, gs) => (.crashed, t, gs)

def ofExcept (x : Except ε α) : Prog π σ ε α :=
  match x with
  | .ok a => pure a
  | .error e => throw e

def doIf (c : Bool) (p : Prog π σ ε Unit) : Prog π σ ε Unit := if c then p else pure ()

/-- Errors of the program are dropped. -/
def ignore (p : Prog π σ ε Unit) : Prog π σ ε Unit := do
  let _ ← attempt p
  pure ()

/-- A guard that runs when the program fails. -/
def onError (p : Prog π σ ε α) (guard : Prog π σ ε Unit) : Prog π σ ε α := do
  match ← attempt p with
  | .ok a => pure a
  | .error e => do
      ignore guard
      throw e

def forEach (l : List β) (f : β → Prog π σ ε Unit) : Prog π σ ε Unit :=
  match l with
  | [] => pure ()
  | b :: l => do
      f b
      forEach l f

theorem forEach_append (l l' : List β) (f : β → Prog π σ ε Unit) (fs : List (Fault π)) (s : σ) :
    forEach (l ++ l') f fs s = (forEach l f >>= fun _ => forEach l' f) fs s := by
  induction l generalizing fs s with
  | nil => rfl
  | cons b l ih =>
      change andThen (f b) (fun _ => forEach (l ++ l') f) fs s =
        andThen (andThen (f b) fun _ => forEach l f) (fun _ => forEach l' f) fs s
      simp only [andThen]
      obtain ⟨x, t, gs⟩ := f b fs s
      cases x with
      | ok a => exact ih gs t
      | err e => rfl
      | crashed => rfl

/-- Where a run ends: `Q` when it returns, `E` when it fails, `C` when it crashes. -/
def Ends (Q : α → σ → Prop) (E : ε → σ → Prop) (C : σ → Prop) :
    Exit ε α × σ × List (Fault π) → Prop
  | (.ok a, s, _) => Q a s
  | (.err e, s, _) => E e s
  | (.crashed, s, _) => C s

/-- What an attempt has found: `Q` about a result, `E` about an error. -/
def Tried (Q : α → σ → Prop) (E : ε → σ → Prop) : Except ε α → σ → Prop
  | .ok a => Q a
  | .error e => E e

/-- Whatever faults befall the program, a run from `P` ends in `Q`, `E` or `C`. -/
def Triple (P : σ → Prop) (p : Prog π σ ε α) (Q : α → σ → Prop) (E : ε → σ → Prop) (C : σ → Prop) :
    Prop :=
  ∀ fs s, P s → Ends Q E C (p fs s)

section

variable {P P' : σ → Prop} {p : Prog π σ ε α} {Q Q' : α → σ → Prop} {E E' : ε → σ → Prop}
  {C C' : σ → Prop}

theorem Triple.conseq (h : Triple P p Q E C) (hP : ∀ s, P' s → P s)
    (hQ : ∀ a s, Q a s → Q' a s) (hE : ∀ e s, E e s → E' e s) (hC : ∀ s, C s → C' s) :
    Triple P' p Q' E' C' := by
  intro fs s hs
  have hends := h fs s (hP s hs)
  revert hends
  obtain ⟨x, t, gs⟩ := p fs s
  cases x with
  | ok a => exact hQ a t
  | err e => exact hE e t
  | crashed => exact hC t

/-- What every end of the program has in common holds wherever it is stopped. -/
theorem Triple.state {R : σ → Prop} (h : Triple P p (fun _ => R) (fun _ => R) R)
    (fs : List (Fault π)) {s : σ} (hs : P s) : R (p fs s).2.1 := by
  have hends := h fs s hs
  revert hends
  obtain ⟨x, t, gs⟩ := p fs s
  cases x <;> exact id

theorem Triple.result (h : Triple P p Q E C) {fs gs : List (Fault π)} {s t : σ} {a : α} (hs : P s)
    (hrun : p fs s = (.ok a, t, gs)) : Q a t := by
  have hends := h fs s hs
  rwa [hrun] at hends

theorem Triple.error (h : Triple P p Q E C) {fs gs : List (Fault π)} {s t : σ} {e : ε} (hs : P s)
    (hrun : p fs s = (.err e, t, gs)) : E e t := by
  have hends := h fs s hs
  rwa [hrun] at hends

theorem Triple.of_false : Triple (fun _ => False) p Q E C := fun _ _ hs => hs.elim

theorem Triple.pre (h : Triple P p Q E C) (hP : ∀ s, P' s → P s) : Triple P' p Q E C :=
  h.conseq hP (fun _ _ => id) (fun _ _ => id) fun _ => id

theorem Triple.post (h : Triple P p Q E C) (hQ : ∀ a s, Q a s → Q' a s) : Triple P p Q' E C :=
  h.conseq (fun _ => id) hQ (fun _ _ => id) fun _ => id

/-- Failures and crashes may be weakened together. -/
theorem Triple.stop {R : σ → Prop} (h : Triple P p Q (fun _ => R) R) (hE : ∀ e s, R s → E e s)
    (hC : ∀ s, R s → C s) : Triple P p Q E C :=
  h.conseq (fun _ => id) (fun _ _ => id) hE hC

/-- The state in which the program starts may be fixed. -/
theorem Triple.intro (h : ∀ s, P s → Triple (fun t => t = s) p Q E C) : Triple P p Q E C :=
  fun fs s hs => h s hs fs s rfl

theorem Triple.pure {a : α} (h : ∀ s, P s → Q a s) : Triple P (pure a : Prog π σ ε α) Q E C :=
  fun _ s hs => h s hs

theorem Triple.throw {e : ε} (h : ∀ s, P s → E e s) : Triple P (throw e : Prog π σ ε α) Q E C :=
  fun _ s hs => h s hs

theorem Triple.bind {R : β → σ → Prop} {q : Prog π σ ε β} {f : β → Prog π σ ε α}
    (hq : Triple P q R E C) (hf : ∀ b, Triple (R b) (f b) Q E C) : Triple P (q >>= f) Q E C := by
  intro fs s hs
  have hends := hq fs s hs
  change Ends Q E C (andThen q f fs s)
  unfold andThen
  revert hends
  obtain ⟨x, t, gs⟩ := q fs s
  cases x with
  | ok b => exact hf b gs t
  | err e => exact id
  | crashed => exact id

theorem Triple.get {f : σ → Prog π σ ε α}
    (hf : ∀ s, P s → Triple (fun t => t = s) (f s) Q E C) : Triple P (get >>= f) Q E C :=
  fun fs s hs => hf s hs fs s rfl

theorem Triple.modify {f : σ → σ} {Q : Unit → σ → Prop} (h : ∀ s, P s → Q () (f s)) :
    Triple P (modify f : Prog π σ ε Unit) Q E C :=
  fun _ s hs => h s hs

theorem Triple.step {failure : ε} {leave : π → σ → σ} {act : σ → Except ε σ}
    {Q : Unit → σ → Prop} (hcut : ∀ s, P s → ∀ l, E failure (leave l s) ∧ C (leave l s))
    (hok : ∀ s t, P s → act s = .ok t → Q () t) (herr : ∀ s e, P s → act s = .error e → E e s) :
    Triple P (step failure leave act : Prog π σ ε Unit) Q E C := by
  intro fs s hs
  have hact (gs : List (Fault π)) : Ends Q E C (match act s with
      | .ok t => ((.ok (), t, gs) : Exit ε Unit × σ × List (Fault π))
      | .error e => (.err e, s, gs)) := by
    cases h : act s with
    | ok t => exact hok s t hs h
    | error e => exact herr s e hs h
  cases fs with
  | nil => exact hact []
  | cons f fs =>
      cases f with
      | proceed => exact hact fs
      | fail l => exact (hcut s hs l).1
      | crash l => exact (hcut s hs l).2

theorem Triple.attempt {F : ε → σ → Prop} (h : Triple P p Q F C) :
    Triple P (attempt p) (Tried Q F) E C := by
  intro fs s hs
  have hends := h fs s hs
  unfold Prog.attempt
  revert hends
  obtain ⟨x, t, gs⟩ := p fs s
  cases x with
  | ok a => exact id
  | err e => exact id
  | crashed => exact id

theorem Triple.ofExcept {x : Except ε α} (hok : ∀ a s, x = .ok a → P s → Q a s)
    (herr : ∀ e s, x = .error e → P s → E e s) :
    Triple P (ofExcept x : Prog π σ ε α) Q E C := by
  cases x with
  | ok a => exact Triple.pure fun s hs => hok a s rfl hs
  | error e => exact Triple.throw fun s hs => herr e s rfl hs

theorem Triple.ofExcept_bind {x : Except ε β} {f : β → Prog π σ ε α}
    (hok : ∀ b, x = .ok b → Triple P (f b) Q E C) (herr : ∀ e s, x = .error e → P s → E e s) :
    Triple P (Prog.ofExcept x >>= f) Q E C := by
  cases x with
  | ok b => exact hok b rfl
  | error e => exact Triple.bind (Triple.throw (fun s hs => herr e s rfl hs) : Triple P
      (Prog.throw e : Prog π σ ε β) (fun _ _ => False) E C) fun b => Triple.of_false

theorem Triple.ofExcept_ok {x : Except ε β} {f : β → Prog π σ ε α} {b : β} (hx : x = .ok b)
    (h : Triple P (f b) Q E C) : Triple P (Prog.ofExcept x >>= f) Q E C := by
  subst hx
  exact h

theorem Triple.doIf {c : Bool} {p : Prog π σ ε Unit} {R : σ → Prop}
    (h : c = true → Triple P p (fun _ => R) E C) (hskip : c = false → ∀ s, P s → R s) :
    Triple P (doIf c p) (fun _ => R) E C := by
  cases c with
  | true => exact h rfl
  | false => exact Triple.pure (hskip rfl)

theorem Triple.ignore {p : Prog π σ ε Unit} {R : σ → Prop}
    (h : Triple P p (fun _ => R) (fun _ => R) C) : Triple P (ignore p) (fun _ => R) E C :=
  Triple.bind (Triple.attempt h) fun x => Triple.pure fun _ hs => by cases x <;> exact hs

theorem Triple.onError {guard : Prog π σ ε Unit} {F : ε → σ → Prop} (h : Triple P p Q F C)
    (hguard : ∀ e, Triple (F e) guard (fun _ => E e) (fun _ => E e) C) :
    Triple P (onError p guard) Q E C := by
  refine Triple.bind (Triple.attempt h) fun x => ?_
  cases x with
  | ok a => exact Triple.pure fun _ => id
  | error e => exact Triple.bind (Triple.ignore (hguard e)) fun _ => Triple.throw fun _ => id

/-- The invariant speaks about the elements that are done and about those that are left. -/
theorem Triple.forEach {l : List β} {f : β → Prog π σ ε Unit} {I : List β → List β → σ → Prop}
    (h : ∀ before b after, l = before ++ b :: after →
      Triple (I before (b :: after)) (f b) (fun _ => I (before ++ [b]) after) E C) :
    Triple (I [] l) (Prog.forEach l f) (fun _ => I l []) E C := by
  have hrest (before after : List β) (hl : l = before ++ after) :
      Triple (I before after) (Prog.forEach after f) (fun _ => I l []) E C := by
    induction after generalizing before with
    | nil =>
        rw [List.append_nil] at hl
        subst hl
        exact Triple.pure fun _ => id
    | cons b after ih =>
        refine Triple.bind (h before b after hl) fun _ => ih (before ++ [b]) ?_
        simp [hl]
  exact hrest [] l rfl

end

/-- Without any fault the program returns, and ends in `Q`. -/
def Returns (P : σ → Prop) (p : Prog π σ ε α) (Q : α → σ → Prop) : Prop :=
  ∀ s, P s → ∃ a t, p [] s = (.ok a, t, []) ∧ Q a t

section

variable {P : σ → Prop} {p : Prog π σ ε α} {Q : α → σ → Prop}

theorem Returns.intro (h : ∀ s, P s → Returns (fun t => t = s) p Q) : Returns P p Q :=
  fun s hs => h s hs s rfl

theorem Returns.conseq {P' : σ → Prop} {Q' : α → σ → Prop} (h : Returns P p Q)
    (hP : ∀ s, P' s → P s) (hQ : ∀ a s, Q a s → Q' a s) : Returns P' p Q' := by
  intro s hs
  obtain ⟨a, t, hp, ht⟩ := h s (hP s hs)
  exact ⟨a, t, hp, hQ a t ht⟩

/-- For a program that is known to return its triple tells where it ends. -/
theorem Returns.of_triple {E : ε → σ → Prop} {C : σ → Prop} (h : Triple P p Q E C)
    (hp : Returns P p fun _ _ => True) : Returns P p Q := by
  intro s hs
  obtain ⟨a, t, hrun, -⟩ := hp s hs
  have hends := h [] s hs
  rw [hrun] at hends
  exact ⟨a, t, hrun, hends⟩

theorem Returns.pure {a : α} (h : ∀ s, P s → Q a s) : Returns P (pure a : Prog π σ ε α) Q :=
  fun s hs => ⟨a, s, rfl, h s hs⟩

theorem Returns.bind {R : β → σ → Prop} {q : Prog π σ ε β} {f : β → Prog π σ ε α}
    (hq : Returns P q R) (hf : ∀ b, Returns (R b) (f b) Q) : Returns P (q >>= f) Q := by
  intro s hs
  obtain ⟨b, t, hb, ht⟩ := hq s hs
  obtain ⟨a, u, ha, hu⟩ := hf b t ht
  refine ⟨a, u, ?_, hu⟩
  change andThen q f [] s = _
  unfold andThen
  rw [hb]
  exact ha

theorem Returns.get {f : σ → Prog π σ ε α}
    (hf : ∀ s, P s → Returns (fun t => t = s) (f s) Q) : Returns P (get >>= f) Q :=
  fun s hs => hf s hs s rfl

theorem Returns.step {failure : ε} {leave : π → σ → σ} {act : σ → Except ε σ}
    {Q : Unit → σ → Prop} (h : ∀ s, P s → ∃ t, act s = .ok t ∧ Q () t) :
    Returns P (step failure leave act : Prog π σ ε Unit) Q := by
  intro s hs
  obtain ⟨t, hact, ht⟩ := h s hs
  refine ⟨(), t, ?_, ht⟩
  simp only [Prog.step, hact]

theorem Returns.ofExcept {x : Except ε α} {a : α} (hx : x = .ok a) (h : ∀ s, P s → Q a s) :
    Returns P (ofExcept x : Prog π σ ε α) Q := by
  subst hx
  exact Returns.pure h

theorem Returns.doIf {c : Bool} {p : Prog π σ ε Unit} {R : σ → Prop}
    (h : c = true → Returns P p fun _ => R) (hskip : c = false → ∀ s, P s → R s) :
    Returns P (doIf c p) fun _ => R := by
  cases c with
  | true => exact h rfl
  | false => exact Returns.pure (hskip rfl)

theorem Returns.forEach {l : List β} {f : β → Prog π σ ε Unit} {I : σ → Prop}
    (h : ∀ b ∈ l, Returns I (f b) fun _ => I) : Returns I (Prog.forEach l f) fun _ => I := by
  induction l with
  | nil => exact Returns.pure fun _ => id
  | cons b l ih =>
      exact Returns.bind (h b List.mem_cons_self) fun _ =>
        ih fun x hx => h x (List.mem_cons_of_mem _ hx)

end

end Prog

end Pishoo
