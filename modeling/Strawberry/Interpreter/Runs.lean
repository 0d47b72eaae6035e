import Strawberry.Interpreter.Frame

/-!
# Runs

A fact about every run with host calls is proved by one induction over `Runs`.
-/

namespace Strawberry.Interpreter

open Polkavm

variable {X : Type}

def Instance.afterCall (i : Instance) (r : HostResult X) : Instance :=
  { i with gasRemaining := r.gas, regs := r.regs, memory := r.mem }

abbrev CallCondition (X : Type) := UInt64 → Gas → Registers → Memory → X → Prop

inductive Runs (hostCall : HostCall X) (P : CallCondition X) (s : Instance × X) :
    Nat → Nat → Instance × X → Prop where
  | start : Runs hostCall P s 0 0 s
  | instruction {n k : Nat} {i j : Instance} {x : X} (hrun : Runs hostCall P s n k (i, x))
    (hstep : i.step = .ret (j, none)) : Runs hostCall P s (n + 1) k (j, x)
  | call {n k : Nat} {i j j' : Instance} {x : X} {index : UInt64} {r : HostResult X}
    (hrun : Runs hostCall P s n k (i, x)) (hstep : i.step = .ret (j, some (.hostCall index)))
    (hP : P index j.gasRemaining j.regs j.memory x)
    (hcall : hostCall index j.gasRemaining j.regs j.memory x = .ret r) (hok : r.err = none)
    (hskip : (j.afterCall r).skip = .ret j') : Runs hostCall P s (n + 1) (k + 1) (j', r.x)

inductive Ends (hostCall : HostCall X) (t : Instance × X) : RunEnd X → Prop where
  | machine {j : Instance} {e : Err} (hstep : t.1.step = .ret (j, some e))
    (he : ∀ index, e ≠ .hostCall index) : Ends hostCall t ⟨j, t.2, .machine e⟩
  | host {j : Instance} {index : UInt64} {r : HostResult X} {e : Err}
    (hstep : t.1.step = .ret (j, some (.hostCall index)))
    (hcall : hostCall index j.gasRemaining j.regs j.memory t.2 = .ret r) (herr : r.err = some e) :
    Ends hostCall t ⟨j.afterCall r, r.x, .host e⟩

variable {hostCall : HostCall X} {P : CallCondition X} {s : Instance × X}

variable {k n : Nat} {i j : Instance} {x : X}

theorem invokeRound_next (h : invokeRound i = .ret (.next j)) :
    i.step = .ret (j, none) := by
  rw [invokeRound, bind_eq_ret] at h
  obtain ⟨⟨j', _ | e⟩, hstep, h⟩ := h
  · cases h
    exact hstep
  · cases h

theorem invokeRound_done {e : Err} (h : invokeRound i = .ret (.done (j, e))) :
    i.step = .ret (j, some e) := by
  rw [invokeRound, bind_eq_ret] at h
  obtain ⟨⟨j', _ | e'⟩, hstep, h⟩ := h
  · cases h
  · cases h
    exact hstep

theorem Runs.invoke {m : Nat} (hrun : Runs hostCall P s n k (i, x))
    (hs : Steps invokeRound m i j) : Runs hostCall P s (n + m) k (j, x) := by
  induction hs generalizing n with
  | refl i => exact hrun
  | @head i i' j m h _ ih =>
    have hnext := ih (hrun.instruction (invokeRound_next h))
    rwa [show n + (m + 1) = n + 1 + m by omega]

theorem Runs.round {flow : Flow (Instance × X) (RunEnd X)}
    (hrun : Runs hostCall (fun _ _ _ _ _ => True) s n k (i, x))
    (h : hostCallRound hostCall (i, x) = .ret flow) :
    ∃ n' k' t, Runs hostCall (fun _ _ _ _ _ => True) s n' k' t ∧
      match flow with
      | .next t' => t = t'
      | .done e => Ends hostCall t e := by
  rw [hostCallRound, bind_eq_ret] at h
  obtain ⟨⟨j, e⟩, hinv, h⟩ := h
  obtain ⟨m, i', -, hsteps, hdone⟩ := loop_eq_ret.mp hinv
  have hstep := invokeRound_done hdone
  have hrun' := hrun.invoke hsteps
  split at h
  · next index heq =>
    cases heq
    rw [bind_eq_ret] at h
    obtain ⟨r, hcall, h⟩ := h
    split at h
    · next e' herr =>
      cases h
      exact ⟨_, _, _, hrun', .host hstep hcall herr⟩
    · next herr =>
      rw [bind_eq_ret] at h
      obtain ⟨j', hskip, h⟩ := h
      cases h
      exact ⟨_, _, _, hrun'.call hstep trivial hcall herr hskip, rfl⟩
  · next hne heq =>
    cases heq
    cases h
    exact ⟨_, _, _, hrun', .machine hstep fun index he => hne index he⟩

theorem runs_of_runHostCalls {fuel : Nat} {e : RunEnd X}
    (h : runHostCalls hostCall fuel i x = .ret e) :
    ∃ n k t, Runs hostCall (fun _ _ _ _ _ => True) (i, x) n k t ∧ Ends hostCall t e := by
  obtain ⟨m, t, -, hsteps, hdone⟩ := loop_eq_ret.mp h
  have hpoint : ∃ n k, Runs hostCall (fun _ _ _ _ _ => True) (i, x) n k t := by
    refine hsteps.invariant
      (I := fun u => ∃ n k, Runs hostCall (fun _ _ _ _ _ => True) (i, x) n k u) ⟨0, 0, .start⟩ ?_
    rintro a b ⟨n, k, ha⟩ hround
    obtain ⟨n', k', t', ht', htb⟩ := ha.round hround
    rw [← htb]
    exact ⟨n', k', ht'⟩
  obtain ⟨n, k, ht⟩ := hpoint
  obtain ⟨n', k', t', ht', hends⟩ := ht.round hdone
  exact ⟨n', k', t', ht', hends⟩

variable {fuel : Nat}

theorem charged_of_step {e : Option Err} (h : i.step = .ret (j, e))
    (he : e = none ∨ ∃ index, e = some (.hostCall index)) : i.Charged j := by
  rcases (Instance.step_post i _ h).gas with hc | ⟨-, hexit⟩
  · exact hc
  · rcases he with rfl | ⟨index, rfl⟩
    · simp at hexit
    · simp at hexit

theorem invokeRound_ne_hang (i : Instance) : invokeRound i ≠ .hang := by
  have htotal : (invokeRound i).Total fun _ => True := by
    rw [invokeRound, total_bind]
    refine i.step_total.mono ?_
    rintro ⟨j, _ | e⟩ -
    · simp
    · simp
  exact htotal.1

theorem invoke_ne_hang (i : Instance) : invoke i ≠ .hang := by
  refine loop_ne_hang (I := fun _ => True) (μ := fun j => j.gasRemaining.toInt.toNat) trivial ?_
    (fun j _ => invokeRound_ne_hang j) (Nat.lt_succ_self _)
  intro a b _ hab
  obtain ⟨hle, heq⟩ := charged_of_step (invokeRound_next hab) (.inl rfl)
  exact ⟨trivial, by omega⟩

theorem invoke_gas {index : UInt64} (h : invoke i = .ret (j, .hostCall index)) :
    0 ≤ j.gasRemaining.toInt ∧ j.gasRemaining.toInt < i.gasRemaining.toInt := by
  obtain ⟨k, i', -, hsteps, hdone⟩ := loop_eq_ret.mp h
  have hle : i'.gasRemaining.toInt ≤ i.gasRemaining.toInt := by
    refine hsteps.invariant (I := fun a => a.gasRemaining.toInt ≤ i.gasRemaining.toInt)
      (Int.le_refl _) ?_
    intro a b ha hab
    obtain ⟨-, heq⟩ := charged_of_step (invokeRound_next hab) (.inl rfl)
    omega
  obtain ⟨hpos, heq⟩ := charged_of_step (invokeRound_done hdone) (.inr ⟨index, rfl⟩)
  exact ⟨by omega, by omega⟩

def Frugal (hostCall : HostCall X) : Prop :=
  ∀ index gas regs mem x, 0 ≤ gas.toInt →
    (hostCall index gas regs mem x).Total fun r => r.err = none → r.gas.toInt ≤ gas.toInt

theorem skip_gas (h : i.skip = .ret j) : j.gasRemaining = i.gasRemaining := by
  rw [Instance.skip, bind_eq_ret] at h
  obtain ⟨_, -, h⟩ := h
  cases h
  rfl

theorem hostCallRound_total (hf : Frugal hostCall) (s : Instance × X) :
    (hostCallRound hostCall s).Total fun flow => ∀ t, flow = .next t →
      t.1.gasRemaining.toInt.toNat < s.1.gasRemaining.toInt.toNat := by
  rw [hostCallRound, total_bind]
  refine ⟨invoke_ne_hang s.1, ?_⟩
  rintro ⟨j, e⟩ hinvoke
  split
  · next index heq =>
    cases heq
    obtain ⟨hpos, hlt⟩ := invoke_gas hinvoke
    rw [total_bind]
    refine (hf index _ _ _ s.2 hpos).mono ?_
    intro r hr
    split
    · simp
    · next hok =>
      rw [total_bind]
      refine ⟨(Instance.skip_total _).1, ?_⟩
      intro j' hskip
      have hgas := skip_gas hskip
      have hle := hr hok
      rw [pure_eq, total_ret]
      rintro t ht
      cases ht
      dsimp only at hgas ⊢
      rw [hgas]
      omega
  · simp

/-- Gas bounds the rounds if no host call returns more of it than it was given. -/
theorem runHostCalls_ne_hang (hf : Frugal hostCall)
    (hfuel : i.gasRemaining.toInt.toNat < fuel) : runHostCalls hostCall fuel i x ≠ .hang := by
  refine loop_ne_hang (I := fun _ => True) (μ := fun s => s.1.gasRemaining.toInt.toNat) trivial ?_
    (fun s _ => (hostCallRound_total hf s).1) hfuel
  intro a b _ hab
  exact ⟨trivial, (hostCallRound_total hf a).2 _ hab b rfl⟩

theorem runHostCalls_ne_hang_of_ecalli :
    runHostCalls (fun _ gas regs mem x => .ret ⟨gas, regs, mem, x, none⟩) 6
      (.bare 5 [10, 3] [true, false]) () ≠ .hang :=
  runHostCalls_ne_hang (fun _ _ _ _ _ _ => by simp) (by decide)

theorem Runs.gas {t : Instance × X}
    (hrun : Runs hostCall P s n k t)
    (hs : 0 ≤ s.1.gasRemaining.toInt)
    (hcost : ∀ index gas regs mem x r, 0 ≤ gas.toInt → P index gas regs mem x →
      hostCall index gas regs mem x = .ret r → r.err = none →
      0 ≤ r.gas.toInt ∧ r.gas.toInt < gas.toInt) :
    0 ≤ t.1.gasRemaining.toInt ∧ t.1.gasRemaining.toInt + n + k ≤ s.1.gasRemaining.toInt := by
  induction hrun with
  | start => exact ⟨hs, by simp⟩
  | @instruction n k i j x _ hstep ih =>
    obtain ⟨hpos, heq⟩ := charged_of_step hstep (.inl rfl)
    dsimp only at *
    exact ⟨by omega, by push_cast; omega⟩
  | @call n k i j j' x index r _ hstep hP hcall hok hskip ih =>
    obtain ⟨h₀, hle⟩ := ih
    obtain ⟨hpos, heq⟩ := charged_of_step hstep (.inr ⟨index, rfl⟩)
    dsimp only at hpos heq h₀ hle
    obtain ⟨h₂, hlt⟩ := hcost _ _ _ _ _ _ (by omega) hP hcall hok
    rw [skip_gas hskip]
    exact ⟨h₂, by simp only [Instance.afterCall]; push_cast; omega⟩

inductive ProgramEnd (x : X) (e : RunEnd X) : ProgramResult X → Prop where
  | host {err : Err} (hexit : e.exit = .host err) : ProgramEnd x e ⟨0, [], x, some err⟩
  | unreadable {err err' : Err} (hexit : e.exit = .machine err)
    (hread : readResult e.machine = .ret (.error err')) : ProgramEnd x e ⟨0, [], x, some err'⟩
  | readable {err : Err} {result : List UInt8} (hexit : e.exit = .machine err)
    (hread : readResult e.machine = .ret (.ok result)) :
    ProgramEnd x e ⟨e.machine.gasRemaining, result, e.x, none⟩

theorem invokeWholeProgram_cases {p : List UInt8}
    {entryPoint initialGas : UInt64} {args : List UInt8} {r : ProgramResult X}
    (h : invokeWholeProgram hostCall fuel p entryPoint initialGas args x = .ret r) :
    (∃ err, setUp p entryPoint initialGas args = .ret (.error err) ∧ r = ⟨0, [], x, some err⟩) ∨
      ∃ i e, setUp p entryPoint initialGas args = .ret (.ok i) ∧
        runHostCalls hostCall fuel i x = .ret e ∧ ProgramEnd x e r := by
  rw [invokeWholeProgram, bind_eq_ret] at h
  obtain ⟨err | i, hsetUp, h⟩ := h
  · cases h
    exact .inl ⟨err, hsetUp, rfl⟩
  · rw [bind_eq_ret] at h
    obtain ⟨res, hinvoke, h⟩ := h
    rw [invokeHostCall, bind_eq_ret] at hinvoke
    obtain ⟨⟨j, x₁, exit⟩, hrun, hres⟩ := hinvoke
    cases hres
    refine .inr ⟨i, _, hsetUp, hrun, ?_⟩
    cases exit with
    | host err =>
      cases h
      exact .host rfl
    | machine err =>
      simp only [Exit.reported] at h
      rw [bind_eq_ret] at h
      obtain ⟨err' | result, hread, h⟩ := h
      · cases h
        exact .unreadable rfl hread
      · cases h
        exact .readable rfl hread

variable {I : X → Prop}

theorem runHostCalls_invariant {e : RunEnd X}
    (h : runHostCalls hostCall fuel i x = .ret e) (h₀ : I x)
    (hcall : ∀ index gas regs mem x r, I x → hostCall index gas regs mem x = .ret r → I r.x) :
    I e.x := by
  obtain ⟨n, k, t, hrun, hends⟩ := runs_of_runHostCalls h
  have hpoint : I t.2 := by
    clear hends
    induction hrun with
    | start => exact h₀
    | instruction _ _ ih => exact ih
    | call _ _ _ hr _ _ ih => exact hcall _ _ _ _ _ _ ih hr
  cases hends with
  | machine _ _ => exact hpoint
  | host _ hr _ => exact hcall _ _ _ _ _ _ hpoint hr

theorem invokeWholeProgram_invariant {p : List UInt8}
    {entryPoint initialGas : UInt64} {args : List UInt8} {r : ProgramResult X}
    (h : invokeWholeProgram hostCall fuel p entryPoint initialGas args x = .ret r) (h₀ : I x)
    (hcall : ∀ index gas regs mem x r, I x → hostCall index gas regs mem x = .ret r → I r.x) :
    I r.x := by
  rcases invokeWholeProgram_cases h with ⟨_, -, rfl⟩ | ⟨i, e, -, hrun, hend⟩
  · exact h₀
  · cases hend with
    | host | unreadable => exact h₀
    | readable _ _ => exact runHostCalls_invariant hrun h₀ hcall

section

variable {Y : Type} (π : Y → X)

def HostResult.map (r : HostResult Y) : HostResult X := ⟨r.gas, r.regs, r.mem, π r.x, r.err⟩

def RunEnd.map (e : RunEnd Y) : RunEnd X := ⟨e.machine, π e.x, e.exit⟩

def Projects (f' : HostCall Y) (f : HostCall X) : Prop :=
  ∀ index gas regs mem y, HostResult.map π <$> f' index gas regs mem y = f index gas regs mem (π y)

def Flow.map {σ τ ρ υ : Type} (g : σ → τ) (h : ρ → υ) : Flow σ ρ → Flow τ υ
  | .next s => .next (g s)
  | .done r => .done (h r)

variable {π} {f' : HostCall Y} {f : HostCall X}

theorem hostCallRound_map (hp : Projects π f' f) (i : Instance) (y : Y) :
    Flow.map (Prod.map id π) (RunEnd.map π) <$> hostCallRound f' (i, y) =
      hostCallRound f (i, π y) := by
  unfold hostCallRound
  cases invoke i with
  | crash | hang => rfl
  | ret res =>
    obtain ⟨j, e⟩ := res
    simp only [ret_bind]
    cases e with
    | hostCall index =>
      dsimp only
      rw [← hp index j.gasRemaining j.regs j.memory y]
      cases f' index j.gasRemaining j.regs j.memory y with
      | crash | hang => rfl
      | ret r =>
        simp only [ret_bind, map_ret, HostResult.map]
        cases r.err with
        | some e => rfl
        | none =>
          cases Instance.skip { j with gasRemaining := r.gas, regs := r.regs, memory := r.mem } with
          | crash | hang | ret => rfl
    | panic _ | panicOf _ | outOfGas | pageFault _ _ | halt | jam _ | roDataSizeMismatch
    | rwDataSizeMismatch | codeSizeMismatch | memoryLayoutOverflow => rfl

theorem runHostCalls_map (hp : Projects π f' f) (fuel : Nat) (i : Instance) (y : Y) :
    RunEnd.map π <$> runHostCalls f' fuel i y = runHostCalls f fuel i (π y) := by
  unfold runHostCalls
  induction fuel generalizing i y with
  | zero => rfl
  | succ fuel ih =>
    have hround := hostCallRound_map hp i y
    rw [loop, loop, ← hround]
    cases hostCallRound f' (i, y) with
    | crash | hang => rfl
    | ret flow =>
      cases flow with
      | done r => rfl
      | next s => exact ih s.1 s.2

def ProgramResult.map (π : Y → X) (r : ProgramResult Y) : ProgramResult X :=
  ⟨r.gas, r.result, π r.x, r.err⟩

def observed (note : UInt64 → X → HostResult X → Y → Y) (hostCall : HostCall X) :
    HostCall (X × Y) := fun index gas regs mem s =>
  (fun r => ⟨r.gas, r.regs, r.mem, (r.x, note index s.1 r s.2), r.err⟩) <$>
    hostCall index gas regs mem s.1

theorem observed_projects (note : UInt64 → X → HostResult X → Y → Y) (hostCall : HostCall X) :
    Projects Prod.fst (observed note hostCall) hostCall := by
  intro index gas regs mem s
  unfold observed
  cases hostCall index gas regs mem s.1 <;> rfl

end

end Strawberry.Interpreter
