/-
  PiWebUi.Talker.RelayNormalise — what a spoken text is normalised to
  (server/src/talker/relay-normalise.ts).

  The passes, in order: hesitations, stutters, what stands at the head (markers, lead-ins,
  politeness, commission frames, one at a time), courtesies at the end, and the seams. Each
  writes down the pieces it takes out. A text that would be left blank is kept as spoken.
-/

import PiWebUi.Lib.RegExp
import PiWebUi.Talker.Draft

namespace PiWebUi.Talker

open PiWebUi.Lib PiWebUi.Lib.RegExp PiWebUi.Lib.RegExp.Pattern

/-! ## Patterns

All but those of the seams are read in any case. -/

/-- The words, with white space between them. -/
def spaced (words : List String) : Pattern := cat ((words.map word).intersperse (plus space))

def blanks : Pattern := plus (among " \t")

/-- `\b(?:erm+|um+|uh+|er+)\b[ \t]*` -/
def hesitation : Pattern :=
  cat [boundary,
    oneOf [cat [word "er", plus (word "m")], cat [word "u", plus (word "m")], cat [word "u", plus (word "h")],
      cat [word "e", plus (word "r")]],
    boundary, star (among " \t")]

/-- `[A-Za-z']` -/
def letter : Pattern := unit fun u => (97 ≤ lower u && lower u ≤ 122) || u = 39

/-- `\b([A-Za-z']+)(?:[ \t]+\1\b)+` -/
def stutter : Pattern := cat [boundary, group 1 (plus letter), plus (cat [blanks, back lower 1, boundary])]

def stutterExempt : List JsString :=
  [js "very", js "so", js "no", js "oh", js "yeah", js "well", js "ok", js "okay", js "hmm", js "ah"]

/-- `^(?:all right|okay so|…|well)\b(?:[\s,;:]+|\s+\u2014\s*)` -/
def markerFree : Pattern :=
  cat [start,
    oneOf [word "all right", word "okay so", word "right so", word "okay then", word "okay well", word "okay", word "ok",
      word "alright", word "well"],
    boundary, oneOf [plus (oneOf [space, among ",;:"]), cat [plus space, among "—", star space]]]

/-- `^(?:so|right|and)\b\s*(?:[,;:]\s*|\s+\u2014\s+)` -/
def markerPunctuated : Pattern :=
  cat [start, oneOf [word "so", word "right", word "and"], boundary, star space,
    oneOf [cat [among ",;:", star space], cat [plus space, among "—", plus space]]]

/-- `(?:could|can|would|will)\s+you\s+(?:please\s+)?(?:be\s+able\s+to\s+)?` -/
def couldYou : Pattern :=
  cat [oneOf [word "could", word "can", word "would", word "will"], plus space, word "you", plus space,
    opt (cat [word "please", plus space]), opt (cat [spaced ["be", "able", "to"], plus space])]

def politeness : Pattern := cat [start, couldYou]

/-- `(?:ask|tell|let|pass|relay)\b` -/
def commissionVerb : Pattern := cat [oneOf [word "ask", word "tell", word "let", word "pass", word "relay"], boundary]

/-- `^(?:(?:all\s+right|yeah|…|please)\b[\s,;:]*)+(?=(?:couldYou)?commissionVerb)` -/
def commissionLeadIn : Pattern :=
  cat [start,
    plus (cat [oneOf [spaced ["all", "right"], word "yeah", word "yep", word "yup", word "okay", word "ok", word "alright",
        word "right", word "so", word "well", word "um", word "uh", word "er", word "erm", word "please"],
      boundary, star (oneOf [space, among ",;:"])]),
    ahead (cat [opt couldYou, commissionVerb])]

/-- `^also\s+(?=(?:ask|tell|let|pass|relay)\b)` -/
def chained : Pattern := cat [start, word "also", plus space, ahead commissionVerb]

/-- `(?:okay|ok|alright|fine)` -/
def fine : Pattern := oneOf [word "okay", word "ok", word "alright", word "fine"]

/-- `^\s*,?\s*(?:if\s+you\s+(?:would|could|don'?t\s+mind|please|like)|if\s+you\s+like|please|if\s+that'?s\s+(?:fine))\s*,?\s*` -/
def politeInterpolation : Pattern :=
  cat [start, star space, opt (among ","), star space,
    oneOf [
      cat [spaced ["if", "you"], plus space,
        oneOf [word "would", word "could", cat [word "don", opt (among "'"), word "t", plus space, word "mind"], word "please",
          word "like"]],
      spaced ["if", "you", "like"],
      word "please",
      cat [word "if", plus space, word "that", opt (among "'"), word "s", plus space, fine]],
    star space, opt (among ","), star space]

/-- `(?:the\s+worker|it)\b` -/
def addressee : Pattern := cat [oneOf [spaced ["the", "worker"], word "it"], boundary]

/-- `^\s*i(?:'(?:m|ll|d|ve))?\b` -/
def firstPersonHead : Pattern :=
  cat [start, star space, word "i", opt (cat [among "'", oneOf [word "m", word "ll", word "d", word "ve"]]), boundary]

/-! ## Commission frames

Each gives the number of units of the frame at the head, if there is one that may go. -/

/-- The length of a match of an anchored pattern. -/
def headLength (p : Pattern) (text : JsString) : Option ℕ := (p.exec text).map (·.text.length)

/-- The separator at the head, where something to be seen comes after it. -/
def separatorLength (units : String) (after : JsString) : Option ℕ :=
  (headLength (cat [start, star space, among units, star space]) after).filter fun n => hasVisible (after.drop n)

def spaceLength (after : JsString) : ℕ := (headLength (cat [start, star space]) after).getD 0

def frameConsumer (verb : String) (connectorsKept : Bool) (work : JsString) : Option ℕ := do
  let head ← headLength (cat [start, word verb, plus space, addressee]) work
  let polite := (headLength politeInterpolation (work.drop head)).getD 0
  let base := head + polite
  let after := work.drop base
  let connector := headLength (cat [start, star space, oneOf [word "to", word "that"], boundary,
    plus (oneOf [space, among ",;:"])]) after
  let kept := connectorsKept && (headLength (cat [start, plus space,
    oneOf [word "if", word "whether", word "about", word "for", word "what", word "when", word "where", word "why", word "how",
      word "which", word "who", word "whose"], boundary]) after).isSome
  let bare := (headLength (cat [start, plus space, visible]) after).isSome && (headLength firstPersonHead after).isSome
  let consumed ← connector <|> separatorLength ":—-" after <|> if kept || bare then some (spaceLength after) else none
  return base + consumed

def consumeAskFrame : JsString → Option ℕ := frameConsumer "ask" true

def consumeTellFrame : JsString → Option ℕ := frameConsumer "tell" false

def consumeLetKnowFrame (work : JsString) : Option ℕ := do
  let head ← headLength (cat [start, spaced ["let", "the", "worker", "know"], boundary]) work
  let after := work.drop head
  let that := headLength (cat [start, plus space, word "that", plus space]) after
  let consumed ← that <|> separatorLength ":—-" after <|> some (spaceLength after)
  return head + consumed

def consumePassFrame (work : JsString) : Option ℕ := do
  let head ← headLength (cat [start, word "pass", plus space, oneOf [word "this", word "that", word "it"], plus space,
    opt (cat [word "on", plus space]), word "to", plus space, oneOf [spaced ["the", "worker"], word "it", word "them"],
    boundary]) work
  let consumed ← separatorLength ":—-" (work.drop head)
  return head + consumed

def consumeRelayFrame (work : JsString) : Option ℕ := do
  let head ← headLength (cat [start, word "relay", plus space, opt (cat [oneOf [word "this", word "that"], plus space]),
    opt (cat [word "on", plus space]), word "to", plus space, oneOf [spaced ["the", "worker"], word "worker"], boundary]) work
  let after := work.drop head
  let connector := headLength (cat [start, star space, oneOf [word "that", word "to"], boundary,
    plus (oneOf [space, among ",;:"])]) after
  let bare := (headLength (cat [start, plus space, visible]) after).isSome
  let consumed ← connector <|> separatorLength ",:—-" after <|> if bare then some (spaceLength after) else none
  return head + consumed

def consumeFrame (work : JsString) : Option ℕ :=
  consumeAskFrame work <|> consumeTellFrame work <|> consumeLetKnowFrame work <|> consumePassFrame work <|>
    consumeRelayFrame work

/-! ## Courtesies and seams -/

def trailingPad : List Pattern :=
  [ -- `,?\s*if\s+(?:that\s*'?s|that\s+is|this\s+is)\s+(?:okay|ok|alright|fine)\b[.!\s]*$`
    cat [cat [opt (among ","), star space, word "if", plus space,
        oneOf [cat [word "that", star space, opt (among "'"), word "s"], spaced ["that", "is"], spaced ["this", "is"]],
        plus space, fine, boundary, star (oneOf [among ".!", space])], finish],
    -- `,?\s*if\s+you\s+(?:don\s*'?t\s+mind|could)\b[.!?\s]*$`
    cat [cat [opt (among ","), star space, spaced ["if", "you"], plus space,
        oneOf [cat [word "don", star space, opt (among "'"), word "t", plus space, word "mind"], word "could"],
        boundary, star (oneOf [among ".!?", space])], finish],
    -- `,?\s*please\b[.!\s]*$`
    cat [cat [opt (among ","), star space, word "please", boundary, star (oneOf [among ".!", space])], finish]]

/-- `^[\s,.;:!?\u2014-]+` -/
def headSeam : Pattern := cat [start, plus (oneOf [space, among ",.;:!?—-"])]

/-- `[ \t]{2,}` -/
def doubledBlank : Pattern := cat [among " \t", blanks]

/-- `[ \t]+([,.;:!?])` -/
def blankBeforeMark : Pattern := cat [blanks, group 1 (among ",.;:!?")]

/-- `([,.;:!?])[ \t]*[,.;:!?]+` -/
def doubledMark : Pattern := cat [group 1 (among ",.;:!?"), star (among " \t"), plus (among ",.;:!?")]

/-! ## Passes -/

/-- The working text, and what was taken out of it, in the order it was. -/
structure Strip where
  work : JsString
  removals : List JsString
  deriving DecidableEq

/-- `record`: a piece of nothing is not written down. -/
def recorded (piece : JsString) : List JsString := if piece = [] then [] else [piece]

namespace Strip

def replace (s : Strip) (p : Pattern) (f : JsString → (ℕ → JsString) → JsString × List JsString) : Strip :=
  { work := (p.replace f s.work).1, removals := s.removals ++ (p.replace f s.work).2 }

def takeHead (s : Strip) (n : ℕ) : Strip :=
  { work := s.work.drop n, removals := s.removals ++ recorded (s.work.take n) }

def takeTail (s : Strip) (m : JsString) : Strip :=
  { work := s.work.take (s.work.length - m.length), removals := s.removals ++ recorded m }

def hesitations (s : Strip) : Strip := s.replace hesitation fun removed _ => ([], recorded removed)

def stutters (s : Strip) : Strip :=
  s.replace stutter fun m groups =>
    if (groups 1).map lower ∈ stutterExempt then (m, []) else (groups 1, recorded (m.drop (groups 1).length))

def repairHeadSeam (s : Strip) : Strip :=
  match headLength headSeam s.work with
  | none => s
  | some n => s.takeHead n

/-- The length of the item at the head that goes next: a marker, a lead-in, a politeness, a
    connective or a frame. -/
def headItem (work : JsString) : Option ℕ :=
  headLength markerFree work <|> headLength markerPunctuated work <|> headLength commissionLeadIn work <|>
    headLength politeness work <|> headLength chained work <|> consumeFrame work

/-- The loop over the items at the head. -/
def leading : ℕ → Strip → Strip
  | 0, s => s
  | i + 1, s =>
    match headItem s.repairHeadSeam.work with
    | none => s.repairHeadSeam
    | some consumed => leading i (s.repairHeadSeam.takeHead consumed)

/-- The loop over the courtesies at the end. -/
def trailing : ℕ → Strip → Strip
  | 0, s => s
  | i + 1, s =>
    match trailingPad.findSome? fun p => p.exec s.work with
    | none => s
    | some m => trailing i (s.takeTail m.text)

/-- `repairRelaySeams(work, record)` -/
def repairRelaySeams (s : Strip) : Strip :=
  let closed := (s.replace doubledBlank fun _ _ => ([32], [])).replace blankBeforeMark fun _ groups => (groups 1, [])
  let merged := closed.replace doubledMark fun m groups => (groups 1, recorded (m.drop (groups 1).length))
  { merged with work := trim merged.work }

end Strip

/-- `repairRelaySeams(work)` -/
def repairRelaySeams (work : JsString) : JsString := (Strip.mk work []).repairRelaySeams.work

/-- The passes over a text as spoken. -/
def stripped (raw : JsString) : Strip := (((Strip.mk raw []).hesitations.stutters.leading 16).trailing 4).repairRelaySeams

def normaliseRelayText (raw : JsString) : RelayNormalisation :=
  if trim (stripped raw).work = [] then ⟨raw, false, []⟩
  else ⟨(stripped raw).work, (stripped raw).work ≠ raw, (stripped raw).removals⟩

/-- The wording of the store, but for the comparison of texts and the digest. -/
def relayWording (normaliseForRestatement sha256 : JsString → JsString) : Wording :=
  { normaliseRelayText, repairRelaySeams, normaliseForRestatement, sha256 }

end PiWebUi.Talker
