import BlockThreads.Json.Token

/-!
# Drafts

A `Draft` is a text read as far as it is JSON. Every text has one, also a text that
breaks off: the place of the break is part of the draft, where a value, a member or
the end of a container would stand.

Readers of values, blocks and settings work on drafts. They meet the parts of a
draft in the order of the text, so the first thing that displeases a reader decides,
be it a break or a value of the wrong kind.

* Every comma announces one more item, possibly a broken one.
* A member whose colon is missing has a broken value: its key has been read.
* A container that breaks off stays as the last part of the one around it.
-/

namespace BlockThreads.Json

/-- How the list of parts of a container ends. -/
inductive Ending where
  | closed
  | broken (why : Break)
  deriving DecidableEq, Repr

/-- A text as far as it is JSON. The content of a text is missing if it has an
unpaired surrogate, and so is a key. -/
inductive Draft where
  | broken (why : Break)
  | null
  | bool (value : Bool)
  | number (numeral : Numeral)
  | text (content : Option String)
  | list (items : List Draft) (ending : Ending)
  | object (members : List (Option String × Draft)) (ending : Ending)

namespace Draft

/-! ## Building -/

/-- A container that is open around the place reached: its parts so far, last
first, and for an object the key whose value comes next. -/
inductive Level where
  | list (items : List Draft)
  | object (members : List (Option String × Draft)) (key : Option String)

/-- The container with its next part, `part`, as its last. -/
def Level.close (part : Draft) (ending : Ending) : Level → Draft
  | .list items => .list (part :: items).reverse ending
  | .object members key => .object ((key, part) :: members).reverse ending

/-- The whole draft when the text breaks inside `part`. -/
def abandon (why : Break) (part : Draft) : List Level → Draft
  | [] => part
  | level :: levels => abandon why (level.close part (.broken why)) levels

/-- What has to come next. -/
inductive Awaited where
  /-- A value. -/
  | value
  /-- The first item of a list, or its end. -/
  | item
  /-- The first key of an object, or its end. -/
  | member
  /-- A key, after the members so far. -/
  | key (members : List (Option String × Draft))
  /-- The colon after a key. -/
  | colon (members : List (Option String × Draft)) (key : Option String)
  /-- A comma or the end of the container, after a complete part. -/
  | more (part : Draft)

/-- What a token begins where a value has to stand. -/
inductive Start where
  | value (whole : Draft)
  | list
  | object
  | broken (why : Break)

def Start.ofToken : Token → Start
  | .null => .value .null
  | .bool b => .value (.bool b)
  | .number n => .value (.number n)
  | .text content => .value (.text content)
  | .openList => .list
  | .openObject => .object
  | .broken why => .broken why
  | .brokenText why => .broken why
  | _ => .broken .malformed

/-- Why a token cannot be a key. -/
def noKey : Token → Break
  | .brokenText why => why
  | _ => .malformed

/-- Builds a draft from tokens, inside the open containers `levels`, innermost
first. Answers the draft of the outermost value and the tokens behind it. -/
def build : Awaited → List Level → List Token → Draft × List Token
  | .more part, [], tokens => (part, tokens)
  | .value, levels, [] => (abandon .truncated (.broken .truncated) levels, [])
  | .value, levels, token :: tokens =>
    match Start.ofToken token with
    | .value whole => build (.more whole) levels tokens
    | .list => build .item levels tokens
    | .object => build .member levels tokens
    | .broken why => (abandon why (.broken why) levels, tokens)
  | .item, levels, [] => (abandon .truncated (.list [] (.broken .truncated)) levels, [])
  | .item, levels, token :: tokens =>
    match token with
    | .closeList => build (.more (.list [] .closed)) levels tokens
    | token =>
      match Start.ofToken token with
      | .value whole => build (.more whole) (.list [] :: levels) tokens
      | .list => build .item (.list [] :: levels) tokens
      | .object => build .member (.list [] :: levels) tokens
      | .broken why => (abandon why (.broken why) (.list [] :: levels), tokens)
  | .member, levels, [] => (abandon .truncated (.object [] (.broken .truncated)) levels, [])
  | .member, levels, token :: tokens =>
    match token with
    | .closeObject => build (.more (.object [] .closed)) levels tokens
    | .text key => build (.colon [] key) levels tokens
    | token => (abandon (noKey token) (.object [] (.broken (noKey token))) levels, tokens)
  | .key members, levels, [] =>
    (abandon .truncated (.object members.reverse (.broken .truncated)) levels, [])
  | .key members, levels, token :: tokens =>
    match token with
    | .text key => build (.colon members key) levels tokens
    | token =>
      (abandon (noKey token) (.object members.reverse (.broken (noKey token))) levels, tokens)
  | .colon members key, levels, [] =>
    (abandon .truncated (.broken .truncated) (.object members key :: levels), [])
  | .colon members key, levels, token :: tokens =>
    match token with
    | .colon => build .value (.object members key :: levels) tokens
    | _ => (abandon .malformed (.broken .malformed) (.object members key :: levels), tokens)
  | .more part, level :: levels, [] =>
    (abandon .truncated (level.close part (.broken .truncated)) levels, [])
  | .more part, .list items :: levels, token :: tokens =>
    match token with
    | .comma => build .value (.list (part :: items) :: levels) tokens
    | .closeList => build (.more (.list (part :: items).reverse .closed)) levels tokens
    | _ =>
      (abandon .malformed (.list (part :: items).reverse (.broken .malformed)) levels, tokens)
  | .more part, .object members key :: levels, token :: tokens =>
    match token with
    | .comma => build (.key ((key, part) :: members)) levels tokens
    | .closeObject =>
      build (.more (.object ((key, part) :: members).reverse .closed)) levels tokens
    | _ =>
      (abandon .malformed (.object ((key, part) :: members).reverse (.broken .malformed)) levels,
        tokens)
termination_by structural _ _ tokens => tokens

/-! ## Skipping -/

mutual

/-- The first break that someone meets who skips the draft. -/
def skipped? : Draft → Option Flaw
  | .broken why => some why.skipped
  | .null => none
  | .bool _ => none
  | .number _ => none
  | .text _ => none
  | .list items ending => skippedItems? ending items
  | .object members ending => skippedMembers? ending members

/-- The first break among the rest of the items of a list. -/
def skippedItems? (ending : Ending) : List Draft → Option Flaw
  | [] =>
    match ending with
    | .closed => none
    | .broken why => some why.skipped
  | item :: items => (skipped? item).or (skippedItems? ending items)

/-- The first break among the rest of the members of an object. -/
def skippedMembers? (ending : Ending) : List (Option String × Draft) → Option Flaw
  | [] =>
    match ending with
    | .closed => none
    | .broken why => some why.skipped
  | (_, value) :: members => (skipped? value).or (skippedMembers? ending members)

end

end Draft

/-! ## Documents -/

/-- A text that is to be one JSON value: its draft, and whether something other than
blanks follows the value. -/
structure Document where
  draft : Draft
  trailing : Bool

def Document.ofTokens (tokens : List Token) : Document :=
  let (draft, rest) := Draft.build .value [] tokens
  ⟨draft, !rest.isEmpty⟩

def Document.ofText (text : String) : Document := .ofTokens (Token.scan text.toList)

end BlockThreads.Json
