import Strawberry.Lib.Checks

/-!
# Decoders

Decoders are put together by sequencing, and so are the facts about them.
-/

namespace Strawberry

open List

variable {τ ε α β : Type}

abbrev Decoder (τ ε α : Type) := StateT (List τ) (Except ε) α

namespace Decoder

def mapError (wrap : ε → ε) (d : Decoder τ ε α) : Decoder τ ε α := fun r => (d r).mapError wrap

def require (condition : Bool) (e : ε) : Decoder τ ε Unit := fun r =>
  if condition then .ok ((), r) else .error e

def fail (e : ε) : Decoder τ ε α := fun _ => .error e

def many (d : Decoder τ ε α) : Nat → Decoder τ ε (List α)
  | 0 => pure []
  | n + 1 => do
    let x ← d
    let xs ← many d n
    return x :: xs

variable {d : Decoder τ ε α} {k : α → Decoder τ ε β} {r r' : List τ} {a : α} {b : β}

theorem pure_run (a : α) (r : List τ) : (pure a : Decoder τ ε α) r = .ok (a, r) := rfl

theorem pure_eq_ok {b : α} : (pure a : Decoder τ ε α) r = .ok (b, r') ↔ a = b ∧ r = r' := by
  rw [pure_run, Except.ok.injEq, Prod.mk.injEq]

theorem bind_run (h : d r = .ok (a, r')) : (d >>= k) r = k a r' := by
  change Except.bind (d r) _ = _
  rw [h]
  rfl

theorem bind_eq_ok : (d >>= k) r = .ok (b, r') ↔ ∃ a r₁, d r = .ok (a, r₁) ∧ k a r₁ = .ok (b, r') := by
  constructor
  · intro h
    cases hd : d r with
    | error e =>
      change Except.bind (d r) _ = _ at h
      rw [hd] at h
      cases h
    | ok x =>
      rw [bind_run (show d r = .ok (x.1, x.2) from hd)] at h
      exact ⟨x.1, x.2, rfl, h⟩
  · rintro ⟨a, r₁, hd, hk⟩
    rw [bind_run hd, hk]

variable {wrap : ε → ε}

theorem mapError_eq_ok : d.mapError wrap r = .ok (a, r') ↔ d r = .ok (a, r') :=
  Strawberry.mapError_eq_ok

theorem require_eq_ok {condition : Bool} {e : ε} {u : Unit} :
    (require condition e : Decoder τ ε Unit) r = .ok (u, r') ↔ condition = true ∧ r = r' := by
  cases condition with
  | true | false => simp [require]

def Reads (d : Decoder τ ε α) (bytes : List τ) (a : α) : Prop :=
  ∀ rest, d (bytes ++ rest) = .ok (a, rest)

variable {bytes bytes' : List τ}

theorem reads_pure (a : α) : Reads (pure a : Decoder τ ε α) [] a := fun _ => rfl

theorem Reads.bind (h : Reads d bytes a) (hk : Reads (k a) bytes' b) :
    Reads (d >>= k) (bytes ++ bytes') b := by
  intro rest
  rw [append_assoc, bind_run (h _), hk rest]

theorem Reads.bind_pure (h : Reads d bytes a) (f : α → β) :
    Reads (d >>= fun a => pure (f a)) bytes (f a) := by
  intro rest
  rw [bind_run (h rest), pure_run]

theorem Reads.mapError (h : Reads d bytes a) : Reads (d.mapError wrap) bytes a :=
  fun rest => mapError_eq_ok.mpr (h rest)

theorem reads_many {xs : List α} {parts : List (List τ)}
    (h : List.Forall₂ (fun x part => Reads d part x) xs parts) :
    Reads (many d xs.length) parts.flatten xs := by
  induction h with
  | nil => exact reads_pure []
  | @cons x part xs parts hx _ ih =>
    exact hx.bind (ih.bind_pure _)

def Shrinks (d : Decoder τ ε α) : Prop := ∀ r a r', d r = .ok (a, r') → r' <:+ r

theorem shrinks_pure (a : α) : Shrinks (pure a : Decoder τ ε α) := by
  intro r a' r' h
  cases h
  exact suffix_refl r

theorem shrinks_fail (e : ε) : Shrinks (fail e : Decoder τ ε α) := by
  intro r a r' h
  cases h

theorem shrinks_require (condition : Bool) (e : ε) :
    Shrinks (require condition e : Decoder τ ε Unit) := by
  intro r a r' h
  obtain ⟨-, rfl⟩ := require_eq_ok.mp h
  exact suffix_refl _

theorem Shrinks.bind (h : Shrinks d) (hk : ∀ a, Shrinks (k a)) : Shrinks (d >>= k) := by
  intro r b r' hrun
  obtain ⟨a, r₁, hd, hrest⟩ := bind_eq_ok.mp hrun
  exact (hk a _ _ _ hrest).trans (h _ _ _ hd)

theorem Shrinks.mapError (h : Shrinks d) : Shrinks (d.mapError wrap) :=
  fun r a r' hrun => h r a r' (mapError_eq_ok.mp hrun)

theorem Shrinks.many (h : Shrinks d) (n : Nat) : Shrinks (many d n) := by
  induction n with
  | zero => exact shrinks_pure []
  | succ n ih => exact h.bind fun x => ih.bind fun xs => shrinks_pure _

def Yields (d : Decoder τ ε α) (P : α → Prop) : Prop := ∀ r a r', d r = .ok (a, r') → P a

variable {P : α → Prop} {Q : β → Prop}

theorem yields_pure (h : P a) : Yields (pure a : Decoder τ ε α) P := by
  intro r a' r' hrun
  rwa [← (pure_eq_ok.mp hrun).1]

theorem yields_fail (e : ε) : Yields (fail e : Decoder τ ε α) P := by
  intro r a r' hrun
  cases hrun

theorem Yields.bind (h : Yields d P) (hk : ∀ a, P a → Yields (k a) Q) : Yields (d >>= k) Q := by
  intro r b r' hrun
  obtain ⟨a, r₁, hd, hrest⟩ := bind_eq_ok.mp hrun
  exact hk a (h r a r₁ hd) r₁ b r' hrest

theorem Yields.mapError (h : Yields d P) : Yields (d.mapError wrap) P :=
  fun r a r' hrun => h r a r' (mapError_eq_ok.mp hrun)

theorem Yields.many (h : Yields d P) (n : Nat) :
    Yields (many d n) fun xs => xs.length = n ∧ ∀ x ∈ xs, P x := by
  induction n with
  | zero => exact yields_pure ⟨rfl, nofun⟩
  | succ n ih =>
    refine h.bind fun x hx => ih.bind fun xs hxs => yields_pure ⟨?_, ?_⟩
    · rw [length_cons, hxs.1]
    · rw [forall_mem_cons]
      exact ⟨hx, hxs.2⟩

def Drains (d : Decoder τ ε α) (bytes : List τ) : Prop :=
  ∀ p, p <+: bytes → p ≠ bytes → ∀ a r', d p = .ok (a, r') → r' = []

def Refuses (d : Decoder τ ε α) (bytes : List τ) : Prop :=
  ∀ p, p <+: bytes → p ≠ bytes → ∀ x, d p ≠ .ok x

def Accepts (d : Decoder τ ε α) (bytes : List τ) : Prop :=
  2 ≤ bytes.length ∧ ∃ a, d bytes.dropLast = .ok (a, [])

variable {p : List τ}

theorem prefix_append_cases (h : p <+: bytes ++ bytes') (hne : p ≠ bytes ++ bytes') :
    (p <+: bytes ∧ p ≠ bytes) ∨ ∃ q, p = bytes ++ q ∧ q <+: bytes' ∧ q ≠ bytes' := by
  rcases prefix_or_prefix_of_prefix h (prefix_append bytes bytes') with hp | hp
  · by_cases heq : p = bytes
    · subst heq
      refine .inr ⟨[], (append_nil p).symm, nil_prefix, ?_⟩
      rintro rfl
      exact hne (append_nil p).symm
    · exact .inl ⟨hp, heq⟩
  · obtain ⟨q, rfl⟩ := hp
    rw [prefix_append_right_inj] at h
    exact .inr ⟨q, rfl, h, fun heq => hne (by rw [heq])⟩

theorem bind_ne_ok (h : ∀ x, d r ≠ .ok x) (y : β × List τ) : (d >>= k) r ≠ .ok y := by
  intro hrun
  obtain ⟨a, r₁, hd, -⟩ := bind_eq_ok.mp (show (d >>= k) r = .ok (y.1, y.2) from hrun)
  exact h _ hd

theorem drains_nil : Drains d [] := by
  intro p hp hne
  exact absurd (prefix_nil.mp hp) hne

theorem refuses_nil : Refuses d [] := by
  intro p hp hne
  exact absurd (prefix_nil.mp hp) hne

theorem Refuses.drains (h : Refuses d bytes) : Drains d bytes :=
  fun p hp hne a r' hrun => absurd hrun (h p hp hne (a, r'))

theorem Refuses.empty (h : Refuses d bytes) (hne : bytes ≠ []) (x : α × List τ) : d [] ≠ .ok x :=
  h [] nil_prefix hne.symm x

theorem Drains.bind (hread : Reads d bytes a) (h : Drains d bytes) (hshrinks : ∀ a, Shrinks (k a))
    (hk : Drains (k a) bytes') : Drains (d >>= k) (bytes ++ bytes') := by
  intro p hp hne b r' hrun
  obtain ⟨a', r₁, hd, hrest⟩ := bind_eq_ok.mp hrun
  rcases prefix_append_cases hp hne with ⟨hcut, hne⟩ | ⟨q, hpq, hq, hne⟩
  · -- the first part is cut: the second finds nothing
    rw [h p hcut hne a' r₁ hd] at hrest
    exact suffix_nil.mp (hshrinks a' _ _ _ hrest)
  · rw [hpq, hread q] at hd
    cases hd
    exact hk _ hq hne b r' hrest

theorem Refuses.bind (hread : Reads d bytes a) (h : Refuses d bytes) (hk : Refuses (k a) bytes') :
    Refuses (d >>= k) (bytes ++ bytes') := by
  intro p hp hne x hrun
  obtain ⟨a', r₁, hd, hrest⟩ := bind_eq_ok.mp (show (d >>= k) p = .ok (x.1, x.2) from hrun)
  rcases prefix_append_cases hp hne with ⟨hcut, hne⟩ | ⟨q, hpq, hq, hne⟩
  · exact h p hcut hne _ hd
  · rw [hpq, hread q] at hd
    cases hd
    exact hk _ hq hne _ hrest

theorem Refuses.bind_of_drains (hread : Reads d bytes a) (h : Drains d bytes)
    (hempty : ∀ a x, k a [] ≠ .ok x) (hk : Refuses (k a) bytes') :
    Refuses (d >>= k) (bytes ++ bytes') := by
  intro p hp hne x hrun
  obtain ⟨a', r₁, hd, hrest⟩ := bind_eq_ok.mp (show (d >>= k) p = .ok (x.1, x.2) from hrun)
  rcases prefix_append_cases hp hne with ⟨hcut, hne⟩ | ⟨q, hpq, hq, hne⟩
  · rw [h p hcut hne a' r₁ hd] at hrest
    exact hempty a' _ hrest
  · rw [hpq, hread q] at hd
    cases hd
    exact hk _ hq hne _ hrest

theorem Accepts.bind (hread : Reads d bytes a) (h : Accepts (k a) bytes') :
    Accepts (d >>= k) (bytes ++ bytes') := by
  obtain ⟨hlen, b, hb⟩ := h
  refine ⟨?_, b, ?_⟩
  · rw [length_append]
    omega
  · rw [dropLast_append_of_ne_nil (ne_nil_of_length_pos (by omega)), bind_run (hread _), hb]

theorem Accepts.finish (h : Accepts d bytes) (hk : ∀ a, ∃ b, k a [] = .ok (b, [])) :
    Accepts (d >>= k) bytes := by
  obtain ⟨hlen, a, ha⟩ := h
  obtain ⟨b, hb⟩ := hk a
  exact ⟨hlen, b, by rw [bind_run ha, hb]⟩

theorem Accepts.bind_pure (h : Accepts d bytes) (f : α → β) :
    Accepts (d >>= fun a => pure (f a)) bytes := h.finish fun a => ⟨f a, rfl⟩

theorem Accepts.mapError (h : Accepts d bytes) : Accepts (d.mapError wrap) bytes :=
  ⟨h.1, h.2.imp fun _ => mapError_eq_ok.mpr⟩

theorem Drains.bind_pure (h : Drains d bytes) (f : α → β) :
    Drains (d >>= fun a => pure (f a)) bytes := by
  intro p hp hne b r' hrun
  obtain ⟨a, r₁, hd, hrest⟩ := bind_eq_ok.mp hrun
  cases hrest
  exact h p hp hne a _ hd

theorem Refuses.bind_pure (h : Refuses d bytes) (f : α → β) :
    Refuses (d >>= fun a => pure (f a)) bytes :=
  fun p hp hne => bind_ne_ok (h p hp hne)

variable {xs : List α} {parts : List (List τ)}

theorem Drains.mapError (h : Drains d bytes) : Drains (d.mapError wrap) bytes :=
  fun p hp hne a r' hrun => h p hp hne a r' (mapError_eq_ok.mp hrun)

theorem Refuses.mapError (h : Refuses d bytes) : Refuses (d.mapError wrap) bytes :=
  fun p hp hne x hrun =>
    h p hp hne x (mapError_eq_ok.mp (show d.mapError wrap p = .ok (x.1, x.2) from hrun))

theorem drains_many (h : List.Forall₂ (fun x part => Reads d part x ∧ Drains d part) xs parts)
    (hshrinks : Shrinks d) : Drains (many d xs.length) parts.flatten := by
  induction h with
  | nil => exact drains_nil
  | @cons x part xs parts hx htail ih =>
    refine Drains.bind hx.1 hx.2 (fun x => (hshrinks.many _).bind fun xs => shrinks_pure _) ?_
    exact ih.bind_pure _

theorem empty_of_last
    (h : List.Forall₂ (fun x part => P x → part ≠ [] ∧ Refuses d part) xs parts) {x : α}
    (hx : xs.getLast? = some x) (hP : P x) (y : α × List τ) : d [] ≠ .ok y := by
  obtain ⟨part, -, hpart⟩ := exists_of_mem_left h (mem_of_getLast? hx)
  exact (hpart hP).2.empty (hpart hP).1 y

theorem refuses_many (h : List.Forall₂ (fun x part => Reads d part x ∧ Drains d part) xs parts)
    (hP : List.Forall₂ (fun x part => P x → part ≠ [] ∧ Refuses d part) xs parts)
    (hlast : ∀ x, xs.getLast? = some x → P x) :
    Refuses (many d xs.length) parts.flatten := by
  induction h with
  | nil => exact refuses_nil
  | @cons x part xs parts hx htail ih =>
    cases xs with
    | nil =>
      cases htail
      cases hP with
      | cons hpart _ => exact Refuses.bind hx.1 (hpart (hlast x rfl)).2 refuses_nil
    | cons x' xs =>
      have hempty : ∀ y, d [] ≠ .ok y :=
        empty_of_last hP (List.getLast?_eq_getLast_of_ne_nil (cons_ne_nil _ _))
          (hlast _ (List.getLast?_eq_getLast_of_ne_nil (cons_ne_nil _ _)))
      cases hP with
      | cons _ hP =>
        have hrest := ih hP fun y hy => hlast y (by rwa [List.getLast?_cons_cons])
        refine Refuses.bind_of_drains hx.1 hx.2 ?_ (hrest.bind_pure _)
        intro x
        exact bind_ne_ok (bind_ne_ok hempty)

theorem accepts_many (h : List.Forall₂ (fun x part => Reads d part x) xs parts)
    (hP : List.Forall₂ (fun x part => P x → Accepts d part) xs parts) {x : α}
    (hlast : xs.getLast? = some x) (hx : P x) : Accepts (many d xs.length) parts.flatten := by
  induction h with
  | nil => cases hlast
  | @cons y part ys parts hy htail ih =>
    obtain ⟨hpart, hP⟩ := List.forall₂_cons.mp hP
    cases ys with
    | nil =>
      cases htail
      cases hlast
      rw [flatten_singleton]
      exact (hpart hx).finish fun a => ⟨[a], rfl⟩
    | cons _ _ => exact .bind hy ((ih hP (by rwa [List.getLast?_cons_cons] at hlast)).bind_pure _)

def Recovers (d : Decoder τ ε α) (enc : α → List τ → Prop) : Prop :=
  ∀ r a r', d r = .ok (a, r') → ∃ bytes, enc a bytes ∧ r = bytes ++ r'

variable {enc : α → List τ → Prop} {enc' : β → List τ → Prop}

theorem recovers_pure (h : enc a []) : Recovers (pure a : Decoder τ ε α) enc := by
  intro r x r' hrun
  cases hrun
  exact ⟨[], h, rfl⟩

theorem recovers_fail (e : ε) : Recovers (fail e : Decoder τ ε α) enc := by
  intro r x r' hrun
  cases hrun

theorem Recovers.imp {enc' : α → List τ → Prop} (h : Recovers d enc)
    (himp : ∀ a p, enc a p → enc' a p) : Recovers d enc' := by
  intro r a r' hrun
  obtain ⟨p, hp, hr⟩ := h r a r' hrun
  exact ⟨p, himp a p hp, hr⟩

theorem Recovers.bind (h : Recovers d enc)
    (hk : ∀ a p, enc a p → Recovers (k a) fun b q => enc' b (p ++ q)) :
    Recovers (d >>= k) enc' := by
  intro r b r' hrun
  obtain ⟨a, r₁, hd, hrest⟩ := bind_eq_ok.mp hrun
  obtain ⟨p, hp, rfl⟩ := h r a r₁ hd
  obtain ⟨q, hq, rfl⟩ := hk a p hp r₁ b r' hrest
  exact ⟨p ++ q, hq, (append_assoc ..).symm⟩

theorem Recovers.map {f : α → β} (h : Recovers d enc) (hf : ∀ a p, enc a p → enc' (f a) p) :
    Recovers (d >>= fun a => pure (f a)) enc' :=
  h.bind fun a p hp => recovers_pure (by rw [append_nil]; exact hf a p hp)

theorem recovers_require {condition : Bool} {e : ε} (h : condition = true → Recovers d enc) :
    Recovers (require condition e >>= fun _ => d) enc := by
  intro r a r' hrun
  obtain ⟨_, r₁, hcheck, hrest⟩ := bind_eq_ok.mp hrun
  obtain ⟨hcondition, rfl⟩ := require_eq_ok.mp hcheck
  exact h hcondition r a r' hrest

theorem Recovers.mapError (h : Recovers d enc) : Recovers (d.mapError wrap) enc :=
  fun r a r' hrun => h r a r' (mapError_eq_ok.mp hrun)

theorem Recovers.many (h : Recovers d enc) (n : Nat) : Recovers (many d n) fun xs bytes =>
      xs.length = n ∧ ∃ parts, List.Forall₂ enc xs parts ∧ bytes = parts.flatten := by
  induction n with
  | zero => exact recovers_pure ⟨rfl, [], .nil, rfl⟩
  | succ n ih =>
    refine h.bind fun x part hpart => ih.map ?_
    rintro xs _ ⟨hlen, parts, hparts, rfl⟩
    exact ⟨congrArg _ hlen, part :: parts, .cons hpart hparts, rfl⟩

structure Decodes {σ : Type} (code : σ) (d : σ → Decoder τ ε α) (closed opened : Prop)
    (bytes : List τ) (a : α) : Prop where
  reads : ∀ s, Reads (d s) bytes a
  drains : Drains (d code) bytes
  refuses : closed → bytes ≠ [] ∧ Refuses (d code) bytes
  accepts : opened → Accepts (d code) bytes

namespace Decodes

variable {σ : Type} {code : σ} {d : σ → Decoder τ ε α} {P Q R P' Q' R' : Prop}

theorem mapError (h : Decodes code d P P' bytes a) :
    Decodes code (fun s => (d s).mapError wrap) P P' bytes a where
  reads s := (h.reads s).mapError
  drains := h.drains.mapError
  refuses hP := ⟨(h.refuses hP).1, (h.refuses hP).2.mapError⟩
  accepts hP := (h.accepts hP).mapError

theorem bind_pure (h : Decodes code d P P' bytes a) (f : α → β) :
    Decodes code (fun s => d s >>= fun a => pure (f a)) P P' bytes (f a) where
  reads s := (h.reads s).bind_pure f
  drains := h.drains.bind_pure f
  refuses hP := ⟨(h.refuses hP).1, (h.refuses hP).2.bind_pure f⟩
  accepts hP := (h.accepts hP).bind_pure f

theorem of_pure (a : α) : Decodes code (fun _ => (pure a : Decoder τ ε α)) False False [] a where
  reads _ := reads_pure a
  drains := drains_nil
  refuses := False.elim
  accepts := False.elim

theorem require {condition : σ → Bool} {e : ε} (h : Decodes code d P P' bytes a)
    (hcondition : ∀ s, condition s = true) :
    Decodes code (fun s => Decoder.require (condition s) e >>= fun _ => d s) P P' bytes a := by
  have heq : (fun s => Decoder.require (condition s) e >>= fun _ => d s) = d := by
    funext s
    rw [hcondition s]
    rfl
  rwa [heq]

theorem finish {k : σ → α → Decoder τ ε β} (h : Decodes code d P P' bytes a)
    (hk : ∀ s, Reads (k s a) [] b) (hshrinks : ∀ a, Shrinks (k code a))
    (hempty : P' → ∀ a, ∃ b, k code a [] = .ok (b, [])) :
    Decodes code (fun s => d s >>= k s) P P' bytes b where
  reads s := by
    have hreads := (h.reads s).bind (hk s)
    rwa [append_nil] at hreads
  drains := by
    have hdrains := Drains.bind (h.reads code) h.drains hshrinks drains_nil
    rwa [append_nil] at hdrains
  refuses hP := ⟨(h.refuses hP).1, fun p hp hne => bind_ne_ok ((h.refuses hP).2 p hp hne)⟩
  accepts hP := (h.accepts hP).finish (hempty hP)

theorem imp (h : Decodes code d P P' bytes a) (hP : Q → P) (hP' : Q' → P') :
    Decodes code d Q Q' bytes a where
  reads := h.reads
  drains := h.drains
  refuses hQ := h.refuses (hP hQ)
  accepts hQ := h.accepts (hP' hQ)

theorem bind {k : σ → α → Decoder τ ε β} (h : Decodes code d P P' bytes a)
    (hk : Decodes code (fun s => k s a) Q Q' bytes' b) (hshrinks : ∀ a, Shrinks (k code a))
    (hR : R → P ∧ (Q ∨ bytes' = [])) (hR' : R' → Q') :
    Decodes code (fun s => d s >>= k s) R R' (bytes ++ bytes') b where
  reads s := (h.reads s).bind (hk.reads s)
  drains := .bind (h.reads code) h.drains hshrinks hk.drains
  refuses hr := by
    obtain ⟨hne, hrefuses⟩ := h.refuses (hR hr).1
    refine ⟨append_ne_nil_of_left_ne_nil hne _, .bind (h.reads code) hrefuses ?_⟩
    rcases (hR hr).2 with hQ | rfl
    · exact (hk.refuses hQ).2
    · exact refuses_nil
  accepts hr := .bind (h.reads code) (hk.accepts (hR' hr))

theorem pair {d' : σ → Decoder τ ε β} {γ : Type} (h : Decodes code d P P' bytes a)
    (h' : Decodes code d' Q Q' bytes' b) (hshrinks : Shrinks (d' code)) (f : α → β → γ) :
    Decodes code (fun s => d s >>= fun a => d' s >>= fun b => pure (f a b)) Q Q' (bytes ++ bytes')
      (f a b) where
  reads s := (h.reads s).bind ((h'.reads s).bind_pure _)
  drains := .bind (h.reads code) h.drains (fun _ => hshrinks.bind fun _ => shrinks_pure _)
    (h'.drains.bind_pure _)
  refuses hQ := by
    obtain ⟨hne, hrefuses⟩ := h'.refuses hQ
    refine ⟨append_ne_nil_of_right_ne_nil _ hne, ?_⟩
    refine .bind_of_drains (h.reads code) h.drains ?_ (hrefuses.bind_pure _)
    intro a
    exact bind_ne_ok (hrefuses.empty hne)
  accepts hQ := .bind (h.reads code) ((h'.accepts hQ).bind_pure _)

theorem many {P P' : α → Prop}
    (h : List.Forall₂ (fun x part => Decodes code d (P x) (P' x) part x) xs parts)
    (hshrinks : Shrinks (d code)) :
    Decodes code (fun s => many (d s) xs.length) (∃ x, xs.getLast? = some x ∧ P x)
      (∃ x, xs.getLast? = some x ∧ P' x) parts.flatten xs where
  reads s := reads_many (h.imp fun _ _ hx => hx.reads s)
  drains := drains_many (h.imp fun _ _ hx => ⟨hx.reads code, hx.drains⟩) hshrinks
  refuses := by
    rintro ⟨x, hlast, hP⟩
    constructor
    · obtain ⟨part, hmem, hpart⟩ := exists_of_mem_left h (mem_of_getLast? hlast)
      intro hnil
      exact (hpart.refuses hP).1 (flatten_eq_nil_iff.mp hnil part hmem)
    · refine refuses_many (h.imp fun _ _ hx => ⟨hx.reads code, hx.drains⟩)
        (h.imp fun _ _ hx => hx.refuses) ?_
      intro y hy
      rw [hlast] at hy
      cases hy
      exact hP
  accepts := by
    rintro ⟨x, hlast, hx⟩
    exact accepts_many (h.imp fun _ _ hx => hx.reads code) (h.imp fun _ _ hx => hx.accepts) hlast hx

end Decodes

end Decoder

end Strawberry
