import DocTokens.Markdown.Cursor
import DocTokens.Markdown.Emphasis
import DocTokens.Markdown.Html

/-! # Inline structure

The lines of a block are read from left to right. At a punctuation byte that no backslash protects,
the forms that this byte can start are tried in a fixed order; bytes that start nothing are text.
-/

namespace DocTokens.Markdown.Inline

/-- How far the content of a block has been read. -/
structure State where
  /-- The items read so far, last one first. -/
  items : List Item
  /-- The rest of the current line from the end of the last item on, and the lines after it. -/
  rest : Cursor
  /-- Where the text not yet turned into an item starts. -/
  textStart : Nat
  /-- The next byte to look at. -/
  pos : Nat
  /-- Whether the byte before is a backslash that protects the next one. -/
  escaped : Bool

/-- The state with nothing pending at the given place. -/
def State.at (items : List Item) (rest : Cursor) (escaped : Bool) : State :=
  let start := (rest.head?.map Segment.start).getD 0
  ⟨items, rest, start, start, escaped⟩

/-- The outcome of trying a form: what it leaves of the items read before, and the item and the rest
if it was read. A failed attempt may still settle a bracket. -/
inductive Attempt where
  | read (items : List Item) (rest : Cursor)
  | failed (items : List Item)

/-! ## Code spans, automatic links, HTML -/

/-- The position of the first run of exactly `n` backquotes in a line. -/
def runOf (n : Nat) : (fuel : Nat) → Nat → Bytes → Option Nat
  | 0, _, _ => none
  | fuel + 1, i, line =>
    let skip := Bytes.spanLength (!isBackquote ·) line
    let run := Bytes.spanLength isBackquote (line.drop skip)
    if run = 0 then none
    else if run = n then some (i + skip)
    else runOf n fuel (i + skip + run) (line.drop (skip + run))

/-- The segments of the content of a code span opened by `n` backquotes, one for each line, and the
rest after its closing backquotes. -/
def codeContent? (src : Source) (n : Nat) : Cursor → Option (List Segment × Cursor)
  | [] => none
  | s :: more =>
    let line := src.slice s.start s.stop
    match runOf n line.length 0 line with
    | some i =>
      let own : List Segment := if i = 0 then [] else [⟨s.start, s.start + i⟩]
      some (own, Cursor.advance (i + n) (s :: more))
    | none => (codeContent? src n more).map fun (segments, rest) => (s :: segments, rest)

def isSpaceOrNewline (b : UInt8) : Bool := b == ascii ' ' || b == newline

/-- Cuts one byte off both ends when both are a space or a line feed and the content is not
blank. -/
def stripPadding (src : Source) (segments : List Segment) : List Segment :=
  let blank := segments.all fun s => Bytes.isBlank (src.slice s.start s.stop)
  match segments, segments.getLast? with
  | first :: rest, some last =>
    if !blank && src.at? first.start isSpaceOrNewline
        && src.at? (last.stop - 1) isSpaceOrNewline then
      match rest with
      | [] => [⟨first.start + 1, first.stop - 1⟩]
      | _ => ⟨first.start + 1, first.stop⟩ :: rest.dropLast ++ [⟨last.start, last.stop - 1⟩]
    else segments
  | _, _ => segments

/-- A code span, or the backquotes as text if nothing closes them. -/
def readCodeSpan (src : Source) (s : Segment) (rest : Cursor) : Item × Cursor :=
  let n := Bytes.spanLength isBackquote (src.slice s.start s.stop)
  let after := Cursor.advance n (s :: rest)
  match codeContent? src n after with
  | some (segments, rest) =>
    (.node (.mk .codeSpan [] ((stripPadding src segments).map Node.text)), rest)
  | none => (.text ⟨s.start, s.start + n⟩, after)

/-- Bytes before the `@` of an email address. -/
def isEmailByte (b : UInt8) : Bool :=
  Bytes.isAlphanumeric b || (utf8 ".!#$%&'*+/=?^_`\x7b|\x7d~-").contains b

/-- The length of a label of a domain name: at most 63 letters, digits and hyphens, with no hyphen
at either end. -/
def domainLabelLength (s : Bytes) : Nat :=
  let run := (s.takeWhile Html.isNameByte).take 63
  if run.head?.any Bytes.isAlphanumeric then
    (run.reverse.dropWhile (· == ascii '-')).length
  else 0

/-- The length of the further labels of a domain name, each after a dot. -/
def moreLabelsLength : (fuel : Nat) → Bytes → Nat
  | 0, _ => 0
  | fuel + 1, s =>
    match s with
    | b :: rest =>
      let n := domainLabelLength rest
      if b = ascii '.' && 0 < n then 1 + n + moreLabelsLength fuel (rest.drop n) else 0
    | [] => 0

/-- The length of the email address at the front of a text. -/
def emailLength? (s : Bytes) : Option Nat :=
  let user := Bytes.spanLength isEmailByte s
  match s.drop user with
  | [] => none
  | b :: domain =>
    let n := domainLabelLength domain
    if user = 0 || b != ascii '@' || n = 0 then none
    else some (user + 1 + n + moreLabelsLength domain.length (domain.drop n))

def isSchemeByte (b : UInt8) : Bool :=
  Bytes.isAlphanumeric b || b == ascii '+' || b == ascii '-' || b == ascii '.'

def isUrlByte (b : UInt8) : Bool := 32 < b && b != ascii '<' && b != ascii '>'

/-- The length of the absolute address at the front of a text. -/
def urlLength? (s : Bytes) : Option Nat :=
  let scheme := Bytes.spanLength isSchemeByte s
  if !s.head?.any Bytes.isLetter || scheme < 2 || 33 < scheme
      || (s.drop scheme).head? != some (ascii ':') then none
  else some (scheme + 1 + Bytes.spanLength isUrlByte (s.drop (scheme + 1)))

/-- An automatic link in angle brackets. -/
def readAutoLink? (src : Source) (s : Segment) (rest : Cursor) : Option (Item × Cursor) :=
  let line := (src.slice s.start s.stop).tail
  match (emailLength? line).or (urlLength? line) with
  | none => none
  | some n =>
    if (line.drop n).head? == some (ascii '>') then
      some (.node (.leaf (.autoLink ⟨s.start + 1, s.start + 1 + n⟩ none)),
        Cursor.advance (n + 2) (s :: rest))
    else none

/-- The text of the lines up to the first byte that is no character. -/
def decodable (src : Source) (c : Cursor) : Bytes :=
  let all := c.flatMap fun s => src.slice s.start s.stop
  ((Utf8.runes all).takeWhile fun
    | .char c => c != Rune.replacement
    | .invalid _ => false).flatMap Rune.bytes

/-- The length of the text up to and including the first `closing`, which may stand on a later line
but not across lines. -/
def untilLength? (src : Source) (closing : Bytes) : Cursor → Option Nat
  | [] => none
  | s :: rest =>
    match Bytes.find? closing (src.slice s.start s.stop) with
    | some i => some (i + closing.length)
    | none => (untilLength? src closing rest).map (s.length + ·)

/-- The length of a comment after its opening mark has been seen. -/
def commentLength? (src : Source) (s : Segment) (rest : Cursor) : Option Nat :=
  let line := src.slice s.start s.stop
  if (utf8 "<!-->").isPrefixOf line then some 5
  else if (utf8 "<!--->").isPrefixOf line then some 6
  else (untilLength? src (utf8 "-->") (⟨s.start + 4, s.stop⟩ :: rest)).map (4 + ·)

/-- The length of the HTML at the front of a line. -/
def htmlLength? (src : Source) (s : Segment) (rest : Cursor) : Option Nat :=
  let line := src.slice s.start s.stop
  let second := line.tail.head?
  let third := line.tail.tail.head?
  if second.any Bytes.isAlphanumeric then Html.openTagLength? (decodable src (s :: rest))
  else if second == some (ascii '/') && third.any Bytes.isAlphanumeric then
    Html.closeTagLength? (decodable src (s :: rest))
  else if (utf8 "<!--").isPrefixOf line then commentLength? src s rest
  else if (utf8 "<?").isPrefixOf line then untilLength? src (utf8 "?>") (s :: rest)
  else if second == some (ascii '!') && third.any Bytes.isUpper then
    untilLength? src (utf8 ">") (s :: rest)
  else if (utf8 "<![CDATA[").isPrefixOf line then untilLength? src (utf8 "]]>") (s :: rest)
  else none

/-- HTML, with one segment for each line it touches. -/
def readHtml? (src : Source) (s : Segment) (rest : Cursor) : Option (Item × Cursor) :=
  (htmlLength? src s rest).map fun n =>
    (.node (.leaf (.rawHtml (Cursor.take n (s :: rest)))), Cursor.advance n (s :: rest))

/-! ## Delimiters -/

/-- The character before an offset of the source. -/
def charBefore (src : Source) (pos : Nat) : Char :=
  let back := Bytes.spanLength Utf8.isContinuation (src.slice 0 pos).reverse
  if pos ≤ back then '\n'
  else match src.suffix (pos - back - 1) with
    | [] => '\n'
    | b :: rest => (Utf8.first b rest).1.toChar

/-- The character after a run of delimiters; what is no character there is taken with the run. -/
def charAfter (mark : UInt8) (after : Bytes) : Char :=
  match after with
  | [] => ' '
  | b :: rest =>
    if Utf8.isContinuation b then Char.ofNat mark.toNat else (Utf8.first b rest).1.toChar

/-- A run of delimiters at the front of a line. -/
def readDelimiter (src : Source) (blockStart : Nat) (firstLine : Bool) (s : Segment) : Delimiter :=
  let line := src.slice s.start s.stop
  let mark := line.headD 0
  let n := Bytes.spanLength (· == mark) line
  let before := if firstLine && s.start ≤ blockStart then '\n' else charBefore src s.start
  Delimiter.ofRun mark ⟨s.start, s.start + n⟩ before (charAfter mark (line.drop n))

/-! ## Links -/

mutual

/-- Whether there is a link in a node. -/
def holdsLink : Node → Bool
  | .mk kind _ children =>
    (match kind with
      | .link _ => true
      | _ => false) || anyHoldsLink children

def anyHoldsLink : List Node → Bool
  | [] => false
  | n :: rest => holdsLink n || anyHoldsLink rest

end

/-- The items after the last open bracket, in order, the bracket, and the items before it, last one
first. -/
def splitAtBracket : (after : List Item) → List Item → Option (List Item × OpenBracket × List Item)
  | _, [] => none
  | after, .bracket b :: before => some (after, b, before)
  | after, item :: before => splitAtBracket (item :: after) before

/-- The open brackets among reversed items, last one first. -/
def brackets (items : List Item) : List OpenBracket :=
  items.filterMap fun
    | .bracket b => some b
    | _ => none

/-- Whether open brackets are too far apart for any link to end now. -/
def tooWide (items : List Item) : Bool :=
  match (brackets items).head?, (brackets items).getLast? with
  | some last, some first => 998 < last.segment.stop - first.segment.start
  | _, _ => false

/-- Reads the parenthesised part of a link: its destination, empty if there is none, and the
rest. -/
def readTarget? (src : Source) (c : Cursor) : Option (Bytes × Cursor) := do
  let (_, c) := (c.advance 1).skipSpaces src
  if c.peek? src == some (ascii ')') then return ([], c.advance 1)
  let (destination, c) ← readDestination? src c
  let (_, c) := c.skipSpaces src
  if c.peek? src == some (ascii ')') then return (destination, c.advance 1)
  let opener ← c.peek? src
  let closer ← titleCloser? opener
  let (title?, c) := Cursor.findClosure src opener closer (c.advance 1)
  let _ ← title?
  let (_, c) := c.skipSpaces src
  guard (c.peek? src == some (ascii ')'))
  return (destination, c.advance 1)

/-- What follows the closing bracket of a link. -/
inductive Target where
  | found (destination : Bytes) (rest : Cursor)
  /-- A label that is not defined. -/
  | undefined
  | absent

/-- The label in brackets after a link, or the text of the link if the label is blank. -/
def readLabel (src : Source) (refs : References) (text : Bytes) (c : Cursor) : Target :=
  match Cursor.findClosure src (ascii '[') (ascii ']') (c.advance 1) with
  | (none, _) => .absent
  | (some label, rest) =>
    let label := if Bytes.isBlank label then text else label
    if 999 < label.length then .undefined
    else match refs.find? label with
      | some destination => .found destination rest
      | none => .undefined

/-- The target of a link whose text ends just before `c`. -/
def linkTarget (src : Source) (refs : References) (text : Bytes) (c : Cursor) : Target :=
  let shortcut : Target :=
    if 999 < text.length then .absent
    else match refs.find? text with
      | some destination => .found destination c
      | none => .absent
  match c.peek? src with
  | some b =>
    if b = ascii '(' then
      match readTarget? src c with
      | some (destination, rest) => .found destination rest
      | none => shortcut
    else if b = ascii '[' then
      match readLabel src refs text c with
      | .absent => shortcut
      | target => target
    else shortcut
  | none => shortcut

/-- Reads a closing bracket. The last open bracket either starts a link or becomes text. -/
def closeBracket (src : Source) (lines : List Segment) (refs : References) (items : List Item)
    (s : Segment) (rest : Cursor) : Attempt :=
  match splitAtBracket [] items with
  | none => .failed items
  | some (after, bracket, before) =>
    let asText := Attempt.failed (after.reverse ++ Item.mergeText bracket.segment before)
    let linkInside := after.any fun
      | .node n => holdsLink n
      | _ => false
    if tooWide before || (!bracket.isImage && linkInside) then asText
    else
      let text := textOf src lines ⟨bracket.segment.stop, s.start⟩
      match linkTarget src refs text (Cursor.advance 1 (s :: rest)) with
      | .found destination rest =>
        let kind : Kind := if bracket.isImage then .image destination else .link destination
        .read (.node (.mk kind [] (Item.toNodes (Item.resolve after))) :: before) rest
      | _ => asText

/-! ## Forms on one line -/

/-- A form that ends on its line: how many bytes it takes, and the kind of the node for it. -/
structure Form where
  length : Nat
  kind : Segment → Kind

namespace Form

def formula? (line : Bytes) : Option Form := (formulaLength? line).map fun n => ⟨n, .formula⟩

def underline? (line : Bytes) : Option Form := (underlineLength? line).map fun n => ⟨n, .underline⟩

def backslash? (line : Bytes) : Option Form :=
  (BackslashForm.read? line).map fun form => ⟨form.length, match form with
    | .spacing thin => (.spacing · thin)
    | .command _ => .latex⟩

/-- The kind of the node for a form at an offset. -/
def kindAt (f : Form) (o : Nat) : Kind := f.kind ⟨o, o + f.length⟩

/-- Tries to read a form at an offset of a text. Reading goes on after the form, or where it was if
there is none. -/
def readAt (read? : Bytes → Option Form) (text : Bytes) (o : Nat) : Option Kind × Nat :=
  match read? (text.restOfLine o) with
  | some f => (some (f.kindAt o), o + f.length)
  | none => (none, o)

end Form

/-! ## The reader -/

/-- An attempt at a form that leaves earlier items alone. -/
def attempt (items : List Item) : Option (Item × Cursor) → Attempt
  | some (item, rest) => .read (item :: items) rest
  | none => .failed items

/-- A form on the current line. -/
def onLine (s : Segment) (rest : Cursor) (form : Option Form) : Option (Item × Cursor) :=
  form.map fun f => (.node (.leaf (f.kindAt s.start)), Cursor.advance f.length (s :: rest))

/-- Tries the forms that the byte at the front of a line can start. -/
def tryForms (src : Source) (lines : List Segment) (refs : References) (items : List Item)
    (s : Segment) (rest : Cursor) (b : UInt8) : Attempt :=
  let line := src.slice s.start s.stop
  let openBracket (isImage : Bool) (n : Nat) : Attempt :=
    .read (.bracket ⟨⟨s.start, s.start + n⟩, isImage⟩ :: items) (Cursor.advance n (s :: rest))
  if isBackquote b then attempt items (some (readCodeSpan src s rest))
  else if b = ascii '!' then
    match Directive.read? line s.start with
    | some d =>
      attempt items
        (some (.node (.leaf (.directive d)), Cursor.advance d.segment.length (s :: rest)))
    | none => if line.tail.head? == some (ascii '[') then openBracket true 2 else .failed items
  else if b = ascii '$' then attempt items (onLine s rest (Form.formula? line))
  else if b = ascii '+' then attempt items (onLine s rest (Form.underline? line))
  else if b = ascii '\\' then attempt items (onLine s rest (Form.backslash? line))
  else if b = ascii '[' then openBracket false 1
  else if b = ascii ']' then closeBracket src lines refs items s rest
  else if b = ascii '<' then
    attempt items ((readAutoLink? src s rest).or (readHtml? src s rest))
  else if isEmphasisMark b || isTilde b then
    let firstLine := rest.length + 1 == lines.length
    let blockStart := (lines.head?.map Segment.start).getD 0
    let d := readDelimiter src blockStart firstLine s
    if isTilde b && (2 < d.size || (0 < s.start && !(firstLine && s.start ≤ blockStart)
        && src.at? (s.start - 1) isTilde)) then .failed items
    else .read (.delimiter d :: items) (Cursor.advance d.size (s :: rest))
  else .failed items

/-- The bytes that start a form. -/
def startsForm (b : UInt8) : Bool :=
  isBackquote b || (utf8 "!$+\\[]<*_~").contains b

/-- How a line ends. -/
inductive LineEnd where
  | plain
  /-- Two spaces or more. -/
  | spaces
  | backslash
  deriving DecidableEq

/-- Where the content of the line `[s.start, s.stop)` ends, and how. -/
def lineEnding (src : Source) (s : Segment) : Nat × LineEnd :=
  let n := s.length
  let before (k : Nat) (b : UInt8) : Bool := k ≤ n && src.at? (s.stop - k) (· == b)
  let slash := ascii '\\'
  if !before 1 newline then (s.stop, .plain)
  else if before 2 slash && !before 3 slash then (s.stop - 2, .backslash)
  else if before 2 13 && before 3 slash && !before 4 slash then (s.stop - 3, .backslash)
  else if before 2 32 && before 3 32 then (s.stop - 3, .spaces)
  else if before 2 13 && before 3 32 && before 4 32 then (s.stop - 4, .spaces)
  else (s.stop, .plain)

/-- Ends the current line: what is pending becomes a text of its own. -/
def endLine (src : Source) (st : State) (ending : LineEnd) : State :=
  let pending : Segment := ⟨st.textStart, st.pos⟩
  let text := if ending = .backslash then pending else src.trimEnd pending
  State.at (.text text :: st.items) st.rest.tail st.escaped

/-- Looks at the next byte. -/
def step (src : Source) (lines : List Segment) (refs : References) (st : State) (s : Segment)
    (rest : Cursor) : State :=
  let (limit, ending) := lineEnding src s
  match src[st.pos]? with
  | none => endLine src st ending
  | some b =>
    if limit ≤ st.pos || b = newline then endLine src st ending
    else
      let tries := ((Bytes.isPunctuation b && !st.escaped) || st.pos = s.start) && startsForm b
      let pass (st : State) : State :=
        { st with pos := st.pos + 1, escaped := !st.escaped && b == ascii '\\' }
      if tries then
        let items := if st.pos = s.start then st.items
          else Item.mergeText ⟨st.textStart, st.pos⟩ st.items
        match tryForms src lines refs items ⟨st.pos, s.stop⟩ rest b with
        | .read items rest => State.at items rest st.escaped
        | .failed items => pass { st with items, textStart := st.pos, escaped := false }
      else pass st

/-- Reads on until the end of the block. Every step takes a byte or ends a line. -/
def run (src : Source) (lines : List Segment) (refs : References) : (fuel : Nat) → State → List Item
  | 0, st => st.items
  | fuel + 1, st =>
    match st.rest with
    | [] => st.items
    | s :: rest =>
      if rest.isEmpty && s.isEmpty then st.items
      else run src lines refs fuel (step src lines refs st s rest)

/-- The inline content of a block with the given lines. -/
def read (src : Source) (refs : References) (lines : List Segment) : List Node :=
  let bytes := lines.foldl (fun count s => count + s.length) 0
  let items := run src lines refs (bytes + lines.length + 1) (State.at [] lines false)
  Item.toNodes (Item.resolve items.reverse)

end DocTokens.Markdown.Inline
