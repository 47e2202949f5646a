import CMakeSense.Query.CallTip
import CMakeSense.Query.Completion

/-! Answers to requests: candidates or a call tip, by the reason of the request. -/

namespace CMakeSense

structure Answer where
  candidates? : Option Candidates
  callTip? : Option CallTip

/-- The answer to a request. A request without a reason asks for nothing. -/
def Answer.ofRequest (tree : FileTree) (source : Source) (reason? : Option Reason)
    (request : Request) : Answer :=
  match reason? with
  | some .memberSelect => ⟨Completion.candidates? tree source request, none⟩
  | some .parameterInfo => ⟨none, CallTip.around? source request.position⟩
  | none => ⟨none, none⟩

end CMakeSense
