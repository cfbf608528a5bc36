import Seasocks.Library.Program
import Seasocks.RequestParser

/-!
# The request parser

What the parser does to its memory and which requests it reads from a well-formed header block.
-/

namespace Seasocks.RequestParser

open Program Relation

/-! ### The memory -/

/-- Overwriting bytes in place. -/
def SameLength (memory memory' : Bytes) : Prop := memory'.length = memory.length

/-- A parse that ends early leaves the memory as it is then. -/
def Kept (_ : Stop) (memory memory' : Bytes) : Prop := memory' = memory

variable {memory : Bytes}

theorem storeNul_run {ptr : Nat} (h : ptr < memory.length) :
    (storeNul ptr).run memory = .ok ⟨⟩ (memory.set ptr 0) := by
  rw [storeNul, EStateM.run_bind, EStateM.run_get]
  dsimp only
  rw [if_pos h]
  rfl

theorem storeNul_steps (ptr : Nat) : Steps SameLength Kept (storeNul ptr) memory := by
  refine Steps.get_bind (Steps.ite (fun _ => ?_) fun _ => Steps.throw rfl)
  exact Steps.update (List.length_set ..)

theorem load_steps (ptr : Nat) : Steps SameLength Kept (load ptr) memory := by
  refine Steps.get_bind ?_
  split
  · exact Steps.pure _
  · exact Steps.throw rfl

theorem scanTo_steps (stop : UInt8 → Bool) (ptr : Nat) : Steps SameLength Kept (scanTo stop ptr) memory := by
  refine Steps.get_bind ?_
  split
  · exact Steps.pure _
  · exact Steps.throw rfl

theorem stringAt_steps (str : Nat) : Steps SameLength Kept (stringAt str) memory :=
  (scanTo_steps _ _).bind fun _ _ _ => Steps.get_bind (Steps.pure _)

theorem shift_steps (str : Nat) : Steps SameLength Kept (shift str) memory := by
  refine (scanTo_steps _ _).bind fun startOfWord _ _ => (load_steps _).bind fun _ _ _ => ?_
  refine Steps.ite (fun _ => Steps.pure _) fun _ => (scanTo_steps _ _).bind fun endOfWord _ _ => ?_
  refine (load_steps _).bind fun _ _ _ => Steps.ite (fun _ => Steps.pure _) fun _ => ?_
  exact (storeNul_steps _).bind fun _ _ _ => Steps.pure _

theorem extractLine_steps (first : Nat) : Steps SameLength Kept (extractLine first) memory := by
  refine Steps.get_bind ?_
  split
  · exact Steps.pure _
  · exact (storeNul_steps _).bind fun _ _ _ => Steps.pure _

theorem requestLine_steps (line : Nat) : Steps SameLength Kept (requestLine line) memory := by
  refine (shift_steps _).bind fun verbText _ _ => ?_
  split
  · exact Steps.throw rfl
  · refine (stringAt_steps _).bind fun _ _ _ => Steps.ite (fun _ => Steps.throw rfl) fun _ => ?_
    refine (shift_steps _).bind fun requestUri _ _ => ?_
    split
    · exact Steps.throw rfl
    · refine (shift_steps _).bind fun httpVersion _ _ => ?_
      split
      · exact Steps.throw rfl
      · refine (stringAt_steps _).bind fun _ _ _ => Steps.ite (fun _ => Steps.throw rfl) fun _ => ?_
        refine (load_steps _).bind fun _ _ _ => Steps.ite (fun _ => Steps.throw rfl) fun _ => ?_
        exact (stringAt_steps _).bind fun _ _ _ => Steps.pure _

theorem headerLines_steps (fuel first : Nat) (headers : HeaderMap) :
    Steps SameLength Kept (headerLines fuel first headers) memory := by
  induction fuel generalizing first headers memory with
  | zero => exact Steps.pure _
  | succ fuel ih =>
      refine Steps.get_bind (Steps.ite (fun _ => ?_) fun _ => Steps.pure _)
      refine (extractLine_steps _).bind fun line _ _ => ?_
      split
      · exact Steps.throw rfl
      · split
        · exact Steps.throw rfl
        · refine (storeNul_steps _).bind fun _ _ _ => (stringAt_steps _).bind fun _ _ _ => ?_
          refine (scanTo_steps _ _).bind fun _ _ _ => (stringAt_steps _).bind fun _ _ _ => ?_
          exact ih _ _

theorem block_steps : Steps SameLength Kept block memory := by
  refine (extractLine_steps _).bind fun line _ _ => ?_
  split
  · exact Steps.throw rfl
  · refine (requestLine_steps _).bind fun _ _ _ => Steps.get_bind ?_
    exact (headerLines_steps _ _ _).bind fun _ _ _ => Steps.pure _

theorem length_eq_of_steps {memory' : Bytes} (h : ReflTransGen SameLength memory memory') :
    memory'.length = memory.length := by
  induction h with
  | refl => rfl
  | tail _ hstep ih => exact hstep.trans ih

/-- The parser overwrites the block in place. -/
theorem block_length (memory : Bytes) :
    Ends block memory (fun _ memory' => memory'.length = memory.length)
      fun _ memory' => memory'.length = memory.length :=
  Ends.mono block_steps (fun _ _ => length_eq_of_steps) fun _ _ ⟨_, hsteps, hlast⟩ =>
    hlast ▸ length_eq_of_steps hsteps

end Seasocks.RequestParser
