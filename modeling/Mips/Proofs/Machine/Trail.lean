import Mips.Proofs.Machine.Run
/-!
# The attempts of a run

A run attempts one instruction after another until its budget is used up or an attempt fails.
`Machine.attempts` lists the machines from which the attempts of a run start, and `Machine.trail`
does so for a run under the eyes of an observer.
-/

namespace Mips

namespace Machine

variable {μ ω : Type} [Memory μ]

/-- The machines from which up to `n` instructions are attempted. -/
def attempts (m : Machine μ) : Nat → List (Machine μ)
  | 0 => []
  | n + 1 =>
    if m.cpu.halted then []
    else m :: match m.step with
      | (none, m') => m'.attempts n
      | (some _, _) => []

/-- The machines from which an observed loop attempts its instructions, each with the notes that
the observer had before looking at it. -/
def trail (o : Observer μ ω) : Nat → Machine μ → ω → List (Machine μ × ω)
  | 0, _, _ => []
  | budget + 1, ⟨cpu, memory⟩, notes =>
    if cpu.halted then []
    else
      let (memory, noted) := o.before cpu memory notes
      (⟨cpu, memory⟩, notes) :: match step ⟨cpu, memory⟩ with
        | (none, m) => trail o budget m (o.retired cpu m.cpu noted)
        | (some _, _) => []

/-- Induction over the attempts of an observed loop, for what is true of its trail and its end. -/
theorem loop_trail_induction {o : Observer μ ω}
    {P : Machine μ → ω → List (Machine μ × ω) → Machine μ × ω → Prop}
    (hend : ∀ m notes, P m notes [] (m, notes))
    (hretires : ∀ {cpu memory notes seen noted m trail final},
      o.before cpu memory notes = (seen, noted) → step ⟨cpu, seen⟩ = (none, m) →
      P m (o.retired cpu m.cpu noted) trail final →
      P ⟨cpu, memory⟩ notes ((⟨cpu, seen⟩, notes) :: trail) final)
    (hfails : ∀ {cpu memory notes seen noted m f},
      o.before cpu memory notes = (seen, noted) → step ⟨cpu, seen⟩ = (some f, m) →
      P ⟨cpu, memory⟩ notes [(⟨cpu, seen⟩, notes)] (m.halt f, o.faulted m.cpu f noted))
    (n : Nat) (m : Machine μ) (notes : ω) : P m notes (trail o n m notes) (loop o n m notes) := by
  induction n generalizing m notes with
  | zero => exact hend m notes
  | succ n ih =>
    obtain ⟨cpu, memory⟩ := m
    cases hhalted : cpu.halted with
    | true =>
      simp only [trail, loop, hhalted, if_true]
      exact hend _ notes
    | false =>
      rcases hlook : o.before cpu memory notes with ⟨seen, noted⟩
      rcases hstep : step ⟨cpu, seen⟩ with ⟨_ | f, m'⟩
      all_goals simp only [trail, loop, hhalted, hlook, hstep, Bool.false_eq_true, if_false]
      · exact hretires hlook hstep (ih m' _)
      · exact hfails hlook hstep

theorem attempts_of_halted {m : Machine μ} (hhalted : m.cpu.halted = true) (n : Nat) :
    m.attempts n = [] := by
  cases n with
  | zero => rfl
  | succ n => rw [attempts, if_pos hhalted]

theorem attempts_succ_of_retires {m m' : Machine μ} (hhalted : m.cpu.halted = false)
    (hstep : m.step = (none, m')) (n : Nat) : m.attempts (n + 1) = m :: m'.attempts n := by
  simp only [attempts, hhalted, hstep, Bool.false_eq_true, if_false]

theorem attempts_succ_of_fails {m m' : Machine μ} {f : Fault} (hhalted : m.cpu.halted = false)
    (hstep : m.step = (some f, m')) (n : Nat) : m.attempts (n + 1) = [m] := by
  simp only [attempts, hhalted, hstep, Bool.false_eq_true, if_false]

theorem trail_silent (n : Nat) (m : Machine μ) :
    (trail .silent n m ()).map Prod.fst = m.attempts n := by
  induction n generalizing m with
  | zero => rfl
  | succ n ih =>
    obtain ⟨cpu, memory⟩ := m
    cases hhalted : cpu.halted with
    | true => simp [trail, attempts, hhalted]
    | false =>
      rcases hstep : step ⟨cpu, memory⟩ with ⟨_ | f, next⟩
      all_goals simp only [trail, attempts, Observer.silent, hhalted, hstep, Bool.false_eq_true,
        if_false, List.map_cons]
      · exact congrArg _ (ih next)
      · rfl

/-- What a step leaves alone in any case, and what it changes in the same way whatever it does. -/
theorem rest_step (m : Machine μ) :
    m.step.2.cpu.halted = m.cpu.halted ∧ m.step.2.cpu.haltReason = m.cpu.haltReason ∧
      m.step.2.cpu.annul = false ∧
      m.step.2.cpu.retired = (if m.step.1 = none then m.cpu.retired + 1 else m.cpu.retired) ∧
      m.step.2.cpu.current = m.fetch.1.toOption.getD m.cpu.current := by
  obtain ⟨f, memory, hfetch, hstep⟩ | ⟨w, memory, f, memory', hfetch, -, hstep⟩ |
    ⟨w, memory, e, memory', hfetch, -, hstep⟩ := m.step_cases
  · rw [hstep, hfetch]
    exact ⟨rfl, rfl, rfl, rfl, rfl⟩
  · rw [hstep, hfetch]
    exact ⟨rfl, rfl, rfl, rfl, rfl⟩
  · rw [hstep, hfetch, Cpu.retire_eq]
    exact ⟨rfl, rfl, rfl, rfl, rfl⟩

def successes (attempts : List (Machine μ)) : Nat := attempts.countP fun a => a.step.1.isNone

theorem successes_cons_of_retires {m m' : Machine μ} (hstep : m.step = (none, m'))
    (attempts : List (Machine μ)) : successes (m :: attempts) = successes attempts + 1 := by
  apply List.countP_cons_of_pos
  rw [hstep]
  rfl

/-- The counter of a processor goes on by the attempts that retire. -/
theorem retired_loop (o : Observer μ ω) (n : Nat) (m : Machine μ) (notes : ω) :
    (loop o n m notes).1.cpu.retired =
      m.cpu.retired + .ofNat 64 (successes ((trail o n m notes).map Prod.fst)) := by
  refine loop_trail_induction (o := o) (P := fun m _ trail final =>
    final.1.cpu.retired = m.cpu.retired + .ofNat 64 (successes (trail.map Prod.fst)))
    ?_ ?_ ?_ n m notes
  · intro m notes
    exact (BitVec.add_zero _).symm
  · intro cpu memory notes seen noted m' trail final _ hstep ih
    have hcount : m'.cpu.retired = cpu.retired + 1 := retired_of_step_retires hstep
    rw [ih, hcount, List.map_cons, successes_cons_of_retires hstep, BitVec.add_assoc,
      Nat.add_comm, BitVec.ofNat_add]
    rfl
  · intro cpu memory notes seen noted m' f _ hstep
    have hcount : m'.cpu.retired = cpu.retired := by
      have hrest := (rest_step ⟨cpu, seen⟩).2.2.2.1
      rw [hstep] at hrest
      exact hrest
    have hnone : successes [(⟨cpu, seen⟩ : Machine μ)] = 0 := by
      apply List.countP_cons_of_neg
      rw [hstep]
      exact Bool.false_ne_true
    change m'.cpu.retired = cpu.retired + .ofNat 64 (successes [⟨cpu, seen⟩])
    rw [hcount, hnone]
    exact (BitVec.add_zero _).symm

theorem retired_proceed (m : Machine μ) (n : Nat) :
    (m.proceed n).cpu.retired = m.cpu.retired + .ofNat 64 (successes (m.attempts n)) := by
  rw [← trail_silent]
  exact retired_loop .silent n m ()

/-- An attempt that fails ends the loop, and its fault is the reason of the halt. -/
theorem proceed_of_attempt_fails {m a : Machine μ} {n : Nat} {f : Fault}
    (hmem : a ∈ m.attempts n) (hfault : a.step.1 = some f) :
    (m.proceed n).cpu.halted = true ∧ (m.proceed n).cpu.haltReason = some f.message := by
  induction n generalizing m with
  | zero => cases hmem
  | succ n ih =>
    cases hhalted : m.cpu.halted with
    | true =>
      rw [attempts_of_halted hhalted] at hmem
      cases hmem
    | false =>
      rcases hstep : m.step with ⟨_ | g, m'⟩
      · rw [attempts_succ_of_retires hhalted hstep] at hmem
        rw [proceed_succ_of_retires hhalted hstep]
        obtain rfl | hmem := List.mem_cons.mp hmem
        · rw [hstep] at hfault
          cases hfault
        · exact ih hmem
      · rw [attempts_succ_of_fails hhalted hstep] at hmem
        rw [proceed_succ_of_fails hhalted hstep]
        obtain rfl := List.mem_singleton.mp hmem
        rw [hstep] at hfault
        obtain rfl : g = f := Option.some.inj hfault
        exact ⟨rfl, rfl⟩

end Machine

end Mips
