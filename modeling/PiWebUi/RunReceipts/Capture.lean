/-
  PiWebUi.RunReceipts.Capture — what a run's final text says about its completion
  (`RunReceiptManager.completionFromSnapshot`).
-/

import PiWebUi.Completion.Parser
import PiWebUi.RunReceipts.FinalText

namespace PiWebUi.RunReceipts

open Lib Completion

/-- The completion fields of a receipt, as one capture sets them. -/
structure Capture where
  completion : Option CompletionBlock := none
  completionDelimiter : Option CompletionDelimiter := none
  completionError : Option CompletionParseError := none
  deriving DecidableEq

/-- What a parse result is captured as; no block is no capture. -/
def capture : CompletionParseResult → Capture
  | .ok block delimiter => { completion := some block, completionDelimiter := some delimiter }
  | .error e => if e.code = .NO_BLOCK then {} else { completionError := some e }

/-- `new FinalTextTracker({ maxChars: COMPLETION_PARSE_WINDOW_CHARS })`. -/
def completionTracker : FinalTextTracker := .new (some COMPLETION_PARSE_WINDOW_CHARS)

def completionFromSnapshot (z : Zod) (reason : JsString → JsString) (completionText : FinalTextTracker) : Capture :=
  match completionText.snapshot with
  | none => {}
  | some snapshot => if snapshot.text = [] then {} else capture (parseCompletionBlock z reason (some snapshot.text))

end PiWebUi.RunReceipts
