import Mathlib.Data.List.Forall2
import Strawberry.Lib.Outcome

/-!
# Checks

Code that validates is a sequence of checks in `Except`; `Call` may also be stopped by the runtime.
-/

namespace Strawberry

open List

variable {ε α β : Type}

def check (condition : Bool) (e : ε) : Except ε Unit :=
  if condition then .ok () else .error e

variable {e : ε} {x : Except ε α} {k : α → Except ε β} {b : β} {a : α} {f : α → Except ε Unit}
  {l : List α} {R : α → β → Prop} {bs : List β}

@[simp] theorem check_eq_ok {condition : Bool} : check condition e = .ok () ↔ condition = true := by
  cases condition <;> simp [check]

theorem bind_eq_ok : (x >>= k) = .ok b ↔ ∃ a, x = .ok a ∧ k a = .ok b := by
  cases x with
  | ok | error => simp [Bind.bind, Except.bind]

theorem ok_bind : (Except.ok a >>= k) = k a := rfl

theorem pure_eq_ok {b : α} : (pure a : Except ε α) = .ok b ↔ a = b := by
  change Except.ok a = Except.ok b ↔ _
  rw [Except.ok.injEq]

theorem bind_unit_eq_ok {x : Except ε Unit} {k : Unit → Except ε β} :
    (x >>= k) = .ok b ↔ x = .ok () ∧ k () = .ok b := by
  rw [bind_eq_ok]
  constructor
  · rintro ⟨⟨⟩, hx, hk⟩
    exact ⟨hx, hk⟩
  · rintro ⟨hx, hk⟩
    exact ⟨(), hx, hk⟩

theorem bind_unit_eq_left {x : Except ε Unit} {k : Unit → Except ε Unit} (h : k () = .ok ()) :
    (x >>= k) = x := by
  cases x with
  | ok a => exact h
  | error e => rfl

def orError (x : Option α) (e : ε) : Except ε α :=
  match x with
  | some a => .ok a
  | none => .error e

@[simp] theorem orError_eq_ok {x : Option α} : orError x e = .ok a ↔ x = some a := by
  cases x <;> simp [orError]

theorem mapError_eq_ok {ε' : Type} {f : ε → ε'} : x.mapError f = .ok a ↔ x = .ok a := by
  cases x with
  | ok a' =>
    change Except.ok a' = Except.ok a ↔ _
    rw [Except.ok.injEq, Except.ok.injEq]
  | error e => exact iff_of_false nofun nofun

theorem forM_eq_ok : l.forM f = .ok () ↔ ∀ a ∈ l, f a = .ok () := by
  induction l with
  | nil => simp [List.forM, pure, Except.pure]
  | cons a l ih =>
    rw [List.forM, bind_unit_eq_ok, forall_mem_cons, ih]

theorem forM_eq_error (h : ∀ a ∈ l, f a = .ok () ∨ f a = .error e) :
    l.forM f = .error e ↔ ∃ a ∈ l, f a = .error e := by
  induction l with
  | nil => exact iff_of_false nofun (by simp)
  | cons a l ih =>
    rw [forall_mem_cons] at h
    rw [List.forM]
    simp only [mem_cons, exists_eq_or_imp]
    rcases h.1 with hok | herror
    · rw [hok, ← ih h.2]
      exact (or_iff_right nofun).symm
    · rw [herror]
      exact iff_of_true rfl (.inl rfl)

theorem exists_of_mem_right (h : List.Forall₂ R l bs) (hb : b ∈ bs) : ∃ a ∈ l, R a b := by
  induction h with
  | nil => cases hb
  | cons hR _ ih =>
    rcases mem_cons.mp hb with rfl | hb
    · exact ⟨_, mem_cons_self, hR⟩
    · obtain ⟨a, ha, hR⟩ := ih hb
      exact ⟨a, mem_cons_of_mem _ ha, hR⟩

theorem exists_forall₂ (h : ∀ a ∈ l, ∃ b, R a b) : ∃ bs, List.Forall₂ R l bs := by
  induction l with
  | nil => exact ⟨[], .nil⟩
  | cons a l ih =>
    rw [forall_mem_cons] at h
    obtain ⟨b, hb⟩ := h.1
    obtain ⟨bs, hbs⟩ := ih h.2
    exact ⟨b :: bs, .cons hb hbs⟩

theorem exists_of_mem_left (h : List.Forall₂ R l bs) (ha : a ∈ l) : ∃ b ∈ bs, R a b :=
  exists_of_mem_right h.flip ha

theorem mapM_eq_pure_iff {m : Type → Type} [Monad m] [LawfulMonad m] {f : α → m β}
    (hpure : ∀ {a b : List β}, (pure a : m _) = pure b ↔ a = b)
    (hbind : ∀ {α' : Type} {x : m α'} {k : α' → m (List β)} {b : List β},
      (x >>= k) = pure b ↔ ∃ a, x = pure a ∧ k a = pure b) :
    l.mapM f = pure bs ↔ List.Forall₂ (fun a b => f a = pure b) l bs := by
  induction l generalizing bs with
  | nil =>
    rw [mapM_nil, hpure]
    constructor
    · rintro rfl
      exact .nil
    · intro h
      cases h
      rfl
  | cons a l ih =>
    simp only [mapM_cons, hbind, hpure, ih]
    constructor
    · rintro ⟨b, hb, bs, hbs, rfl⟩
      exact .cons hb hbs
    · intro h
      cases h with
      | cons hb hbs => exact ⟨_, hb, _, hbs, rfl⟩

theorem mapM_eq_ok {f : α → Except ε β} :
    l.mapM f = .ok bs ↔ List.Forall₂ (fun a b => f a = .ok b) l bs :=
  mapM_eq_pure_iff pure_eq_ok bind_eq_ok

def Call (ε α : Type) := Outcome (Except ε α)

namespace Call

def ok (a : α) : Call ε α := Outcome.ret (.ok a)

def fail (e : ε) : Call ε α := Outcome.ret (.error e)

def crash (f : Fault) : Call ε α := Outcome.crash f

def bind (x : Call ε α) (k : α → Call ε β) : Call ε β :=
  match x with
  | .ret (.ok a) => k a
  | .ret (.error e) => .ret (.error e)
  | .crash f => .crash f
  | .hang => .hang

def Returns (x : Call ε α) : Prop := ∃ result, x = Outcome.ret result

instance [DecidableEq (Except ε α)] : DecidableEq (Call ε α) :=
  inferInstanceAs (DecidableEq (Outcome (Except ε α)))

instance : Monad (Call ε) where
  pure := ok
  bind := bind

def check (condition : Bool) (e : ε) : Call ε Unit := Outcome.ret (Strawberry.check condition e)

instance : MonadLift (Except ε) (Call ε) where
  monadLift := Outcome.ret

instance : MonadLift Outcome (Call ε) where
  monadLift x := Outcome.bind x fun a => Outcome.ret (.ok a)

def mapError {ε' : Type} (f : ε → ε') (x : Call ε α) : Call ε' α :=
  Outcome.bind x fun result => Outcome.ret (result.mapError f)

def attempt {ε' : Type} (x : Call ε α) : Call ε' (Except ε α) :=
  Outcome.bind x fun result => Outcome.ret (.ok result)

variable {x : Call ε α} {k : α → Call ε β} {condition : Bool} {ε' : Type}

theorem ok_inj {b : α} : (ok a : Call ε α) = ok b ↔ a = b := by
  unfold ok
  constructor
  · intro h
    cases h
    rfl
  · rintro rfl
    rfl

theorem bind_eq_ok : (x >>= k) = ok b ↔ ∃ a, x = ok a ∧ k a = ok b := by
  constructor
  · intro h
    match x with
    | .ret (.ok a) => exact ⟨a, rfl, h⟩
    | .ret (.error _) | .crash _ | .hang => cases h
  · rintro ⟨a, rfl, h⟩
    exact h

theorem exists_bind (hx : ∃ a, x = ok a) (hk : ∀ a, ∃ b, k a = ok b) :
    ∃ b, (x >>= k) = ok b := by
  obtain ⟨a, rfl⟩ := hx
  exact hk a

theorem bind_of_ok (h : x = ok a) (k : α → Call ε β) : (x >>= k) = k a := by
  rw [h]
  rfl

theorem bind_unit_eq_ok {x : Call ε Unit} {k : Unit → Call ε β} :
    (x >>= k) = ok b ↔ x = ok () ∧ k () = ok b := by
  rw [bind_eq_ok]
  constructor
  · rintro ⟨⟨⟩, hx, hk⟩
    exact ⟨hx, hk⟩
  · rintro ⟨hx, hk⟩
    exact ⟨(), hx, hk⟩

theorem check_eq_ok {u : Unit} : check condition e = ok u ↔ condition = true := by
  cases condition with
  | true => exact ⟨fun _ => rfl, fun _ => rfl⟩
  | false => exact iff_of_false nofun nofun

theorem check_bind_ne_fail {k : Unit → Call ε β} {e' : ε} (he : e ≠ e')
    (hk : condition = true → k () ≠ fail e') : (check condition e >>= k) ≠ fail e' := by
  cases condition with
  | true => exact hk rfl
  | false =>
    intro h
    cases h
    exact he rfl

theorem map_eq_ok {g : α → β} : g <$> x = ok b ↔ ∃ a, x = ok a ∧ g a = b := by
  constructor
  · intro h
    obtain ⟨a, ha, h⟩ := bind_eq_ok.mp h
    exact ⟨a, ha, ok_inj.mp h⟩
  · rintro ⟨a, rfl, rfl⟩
    rfl

theorem pure_eq_ok {b : α} : (pure a : Call ε α) = ok b ↔ a = b := ok_inj

instance : LawfulMonad (Call ε) := by
  refine LawfulMonad.mk' (Call ε) ?_ (fun _ _ => rfl) ?_
  · intro α x
    match x with
    | .ret (.ok a) | .ret (.error e) | .crash f | .hang => rfl
  · intro α β γ x f g
    match x with
    | .ret (.ok a) | .ret (.error e) | .crash f | .hang => rfl

theorem mapM_eq_ok {f : α → Call ε β} :
    l.mapM f = ok bs ↔ List.Forall₂ (fun a b => f a = ok b) l bs :=
  mapM_eq_pure_iff pure_eq_ok bind_eq_ok

theorem mapM_returns {f : α → Call ε β} {P : β → Prop}
    (h : ∀ a ∈ l, ∃ result, f a = Outcome.ret result ∧ ∀ b, result = .ok b → P b) :
    ∃ result, l.mapM f = Outcome.ret result ∧
      ∀ bs, result = .ok bs → bs.length = l.length ∧ ∀ b ∈ bs, P b := by
  have hreturns : (l.mapM f).Returns := by
    induction l with
    | nil => exact ⟨_, rfl⟩
    | cons a l ih =>
      rw [forall_mem_cons] at h
      obtain ⟨result, hres, -⟩ := h.1
      obtain ⟨results, hresults⟩ := ih h.2
      rw [mapM_cons, hres, hresults]
      cases result with
      | error e => exact ⟨_, rfl⟩
      | ok b => cases results <;> exact ⟨_, rfl⟩
  obtain ⟨result, hres⟩ := hreturns
  refine ⟨result, hres, ?_⟩
  rintro bs rfl
  have hall := mapM_eq_ok.mp hres
  refine ⟨hall.length_eq.symm, ?_⟩
  intro b hb
  obtain ⟨a, ha, hb⟩ := exists_of_mem_right hall hb
  obtain ⟨result, hres, hP⟩ := h a ha
  rw [hres] at hb
  injection hb with hb
  exact hP b hb

theorem bind_ne_fail (hx : x ≠ fail e) (hk : ∀ a, k a ≠ fail e) : (x >>= k) ≠ fail e := by
  match x with
  | .ret (.ok a) => exact hk a
  | .ret (.error e') =>
    rintro ⟨⟩
    exact hx rfl
  | .crash _ | .hang => exact nofun

theorem mapM_ne_fail {f : α → Call ε β} (h : ∀ a ∈ l, f a ≠ fail e) :
    l.mapM f ≠ fail e := by
  induction l with
  | nil => exact nofun
  | cons a l ih =>
    rw [forall_mem_cons] at h
    rw [mapM_cons]
    refine bind_ne_fail h.1 fun b => bind_ne_fail (ih h.2) fun bs => nofun

theorem returns_of_bind (h : (x >>= k).Returns) : x.Returns := by
  obtain ⟨result, hres⟩ := h
  match x with
  | .ret result => exact ⟨result, rfl⟩
  | .crash _ | .hang => cases hres

theorem returns_check_bind {k : Unit → Call ε β} : (check condition e >>= k).Returns ↔
    condition = false ∨ (k ()).Returns := by
  cases condition with
  | true => exact (or_iff_right nofun).symm
  | false => exact iff_of_true ⟨_, rfl⟩ (.inl rfl)

theorem mapError_eq_ok {f : ε → ε'} : x.mapError f = ok a ↔ x = ok a := by
  match x with
  | .ret (.ok a') =>
    change (ok a' : Call ε' α) = ok a ↔ (ok a' : Call ε α) = ok a
    rw [ok_inj, ok_inj]
  | .ret (.error _) | .crash _ | .hang => exact iff_of_false nofun nofun

theorem attempt_eq_ok {result : Except ε α} :
    (x.attempt : Call ε' (Except ε α)) = ok result ↔ x = Outcome.ret result := by
  match x with
  | .ret result' =>
    change (ok result' : Call ε' (Except ε α)) = ok result ↔ Outcome.ret result' = _
    rw [ok_inj, Outcome.ret.injEq]
  | .crash _ | .hang => exact iff_of_false nofun nofun

theorem lift_except_eq_ok {x : Except ε α} : (liftM x : Call ε α) = ok a ↔ x = .ok a := by
  constructor
  · intro h
    change Outcome.ret x = Outcome.ret (.ok a) at h
    injection h
  · rintro rfl
    rfl

theorem lift_outcome_eq_ok {x : Outcome α} : (liftM x : Call ε α) = ok a ↔ x = .ret a := by
  constructor
  · intro h
    cases x with
    | ret a' =>
      change Outcome.ret (Except.ok a') = Outcome.ret (.ok a) at h
      cases h
      rfl
    | crash | hang => cases h
  · rintro rfl
    rfl

theorem lift_outcome_ne_fail {x : Outcome α} : (liftM x : Call ε α) ≠ fail e := by
  cases x <;> exact nofun

theorem bind_of_check {k : Unit → Call ε β}
    (h : condition = true) (hk : k () = ok b) : (check condition e >>= k) = ok b :=
  bind_unit_eq_ok.mpr ⟨check_eq_ok.mpr h, hk⟩

theorem bind_of_except {x : Except ε α} (h : x = .ok a)
    (hk : k a = ok b) : ((liftM x : Call ε α) >>= k) = ok b :=
  bind_eq_ok.mpr ⟨a, lift_except_eq_ok.mpr h, hk⟩

theorem bind_of_ret {x : Outcome α} (h : x = .ret a)
    (hk : k a = ok b) : ((liftM x : Call ε α) >>= k) = ok b :=
  bind_eq_ok.mpr ⟨a, lift_outcome_eq_ok.mpr h, hk⟩

end Call

end Strawberry
