import ProgramSlice.Proofs.Body.Assembly
import ProgramSlice.Proofs.Build.Outcome

/-!
# Assembled bodies build

Of the three things that can be wrong with a position, two cannot happen in a body that lists
operations of its store, each of them once.  What is left is the lack of room, and it shows at a
position that is known beforehand: the one behind the first `maxNodes`
(`build_of_wellListed`, `build_of_wellListed_of_lt`).

Bodies that were assembled call by call are such bodies, whatever the calls were.
-/

namespace ProgramSlice

namespace ProcedureBody

variable {s : BuildSettings} {body : ProcedureBody} {i : Nat}

/-- A body that lists operations of its store, each of them once. -/
structure WellListed (body : ProcedureBody) : Prop where
  known : ∀ o ∈ body.layout.operations, o.index.toNat < body.store.size
  nodup : body.layout.operations.Nodup

/-- All that can be wrong with a position is that there is no room. -/
theorem WellListed.faulty_iff (h : body.WellListed) :
    body.Faulty s i ↔ i < body.layout.operations.length ∧ s.maxNodes.toNat < i + 1 := by
  constructor
  · rintro ⟨o, ho, hunknown | hseen | hfull⟩
    · exact absurd (h.known o (List.mem_of_getElem? ho)) (Nat.not_lt.mpr hunknown)
    · exact absurd ((BlockLayout.mem_take_operations_iff_lt h.nodup ho).mp hseen) (lt_irrefl i)
    · exact ⟨(List.getElem?_eq_some_iff.mp ho).1, hfull⟩
  · rintro ⟨hi, hfull⟩
    exact ⟨_, List.getElem?_eq_getElem hi, Or.inr (Or.inr hfull)⟩

/-- The first position without room is the one behind the first `maxNodes`. -/
theorem WellListed.firstFault (h : body.WellListed)
    (hlong : s.maxNodes.toNat < body.layout.operations.length) :
    body.FirstFault s s.maxNodes.toNat (.nodeLimitExceeded body.name s.maxNodes) := by
  have ho := List.getElem?_eq_getElem hlong
  have hnew := mt (BlockLayout.mem_take_operations_iff_lt h.nodup ho).mp (lt_irrefl _)
  constructor
  · exact .limit ho (h.known _ (List.mem_of_getElem? ho)) hnew (Nat.lt_succ_self _)
  · intro k hk hfaulty
    have hfull := (h.faulty_iff.mp hfaulty).2
    omega

end ProcedureBody

section Build

variable {s : BuildSettings} {body : ProcedureBody}

/-- **With room for all operations** a graph is derived. -/
theorem build_of_wellListed (h : body.WellListed)
    (hroom : body.layout.operations.length ≤ s.maxNodes.toNat) :
    ∃ g, build s body = .ok g ∧ g.nodes = body.layout.operations := by
  have hclean : ∀ k, ¬ body.Faulty s k := by
    intro k hk
    obtain ⟨hlt, hfull⟩ := h.faulty_iff.mp hk
    omega
  obtain ⟨f, hf, _⟩ := build_of_clean hclean
  exact ⟨f.graph, hf, nodes_of_build hf⟩

/-- **Without room for all operations** the limit is reported. -/
theorem build_of_wellListed_of_lt (h : body.WellListed)
    (hlong : s.maxNodes.toNat < body.layout.operations.length) :
    build s body = .error (.nodeLimitExceeded body.name s.maxNodes) :=
  build_of_firstFault (h.firstFault hlong)

end Build

namespace Assembler

variable {name : String} {calls : List Call} {replies : List Reply} {body : ProcedureBody}

/-- **What calls assemble is well listed,** for operations are listed by their numbers. -/
theorem Assembled.wellListed (h : Assembled name calls replies body)
    (hoperations : (appended calls).length < 2 ^ 32 - 1) : body.WellListed where
  known := by
    intro o ho
    rw [h.operations, List.mem_map] at ho
    obtain ⟨i, hi, rfl⟩ := ho
    have hlt := List.mem_range.mp hi
    rw [OperationId.toNat_ofNat (by omega), h.size_store]
    exact hlt
  nodup := by
    rw [h.operations]
    refine List.Nodup.map_on ?_ List.nodup_range
    intro i hi j hj hij
    have hnumber := congrArg (fun o : OperationId => o.index.toNat) hij
    rw [List.mem_range] at hi hj
    simp only [OperationId.toNat_ofNat (show i < 2 ^ 32 by omega),
      OperationId.toNat_ofNat (show j < 2 ^ 32 by omega)] at hnumber
    exact hnumber

/-- **Whatever the calls,** they assemble a body that is in order, and the settings decide by the
number of operations alone whether it has a graph.  Handles are words of 32 bits and so are lines,
of which there is one more than there are operations. -/
theorem assembled_builds (name : String) (calls : List Call)
    (hoperations : (appended calls).length < 2 ^ 32 - 1)
    (hsymbols : (declared calls).length < 2 ^ 32 - 1) :
    Assembled name calls (assemble name calls).1 (assemble name calls).2 ∧
    ∀ s : BuildSettings,
      ((appended calls).length ≤ s.maxNodes.toNat →
        ∃ g, build s (assemble name calls).2 = .ok g ∧
          g.nodes = (List.range (appended calls).length).map OperationId.ofNat) ∧
      (s.maxNodes.toNat < (appended calls).length →
        build s (assemble name calls).2 = .error (.nodeLimitExceeded name s.maxNodes)) := by
  have hbody := assembled name calls hoperations hsymbols
  have hlisted := hbody.wellListed hoperations
  have hlength : (assemble name calls).2.layout.operations.length = (appended calls).length := by
    rw [hbody.operations, List.length_map, List.length_range]
  refine ⟨hbody, fun s => ⟨fun hroom => ?_, fun hlong => ?_⟩⟩
  · rw [← hbody.operations]
    exact build_of_wellListed hlisted (hlength.trans_le hroom)
  · have hfull := build_of_wellListed_of_lt hlisted (hlong.trans_eq hlength.symm)
    rwa [hbody.name] at hfull

/-- Calls that leave the first and the last block empty.  The symbol 7 is never declared, and the
parameter is declared behind the operations that use it. -/
def gappyCalls : List Call :=
  [.nextBlock, .localVariable "x", .declare ⟨0⟩ (.int 1) "int x = 1",
    .assign (.elementAccess (.localRef ⟨7⟩) (.localRef ⟨0⟩)) (.parameterRef ⟨1⟩) "a[x] = p",
    .parameter "p", .nextBlock, .evaluate (.localRef ⟨0⟩) "x", .nextBlock]

theorem assembled_builds_gappyCalls :
    Assembled "gappy" gappyCalls (assemble "gappy" gappyCalls).1 (assemble "gappy" gappyCalls).2 ∧
      (∃ g, build {} (assemble "gappy" gappyCalls).2 = .ok g ∧ g.nodes = [⟨0⟩, ⟨1⟩, ⟨2⟩]) ∧
      build { maxNodes := 2 } (assemble "gappy" gappyCalls).2
        = .error (.nodeLimitExceeded "gappy" 2) := by
  obtain ⟨hbody, hbuild⟩ :=
    assembled_builds "gappy" gappyCalls (by decide) (by decide)
  exact ⟨hbody, (hbuild {}).1 (by decide), (hbuild { maxNodes := 2 }).2 (by decide)⟩

end Assembler

end ProgramSlice
