import AiConfig.Herder.Lanes.Session
import AiConfig.Lib.Matches
import AiConfig.Lib.Patterns

/-! # Deliveries read off a transcript

Transcription of how `claudesession/read.go` and `codexsession/read.go` take an `<hcom>` envelope
apart, and of `queueProof.observe` in `servecmd/queued.go`, which takes a queued message for
delivered when a transcript has a delivery of it.

An envelope is the headers and texts of its messages in one string, and the texts are what other
agents wrote.  `delivery_genuine_iff` says when a header that a text contains is not taken for a
message: never by the Codex reader, and by the Claude reader only as long as the headers found
are not as many as the messages announced. -/

namespace AiConfig.Herder.Deliveries

open AiConfig.Lib

open Agents.Lanes (isSpace)

/-! ## The expressions -/

/-- `\s`. -/
def isBlank (c : Char) : Bool := c ∈ ['\t', '\n', '\x0c', '\r', ' ']

/-- `[ \t]`. -/
def isPad (c : Char) : Bool := c = ' ' || c = '\t'

/-- `[^\]#]`. -/
def isLabel (c : Char) : Bool := c ≠ ']' && c ≠ '#'

/-- `(?m)\[([^\]#]+?)\s+#(\d+)\]\s+(\S+)\s+→\s+(.+?):[ \t]+` -/
def hcomMessagePattern : List (Piece Char) :=
  [⟨.once, (· = '[')⟩, ⟨.lazy, isLabel⟩, ⟨.greedy, isBlank⟩, ⟨.once, (· = '#')⟩,
    ⟨.greedy, Char.isDigit⟩, ⟨.once, (· = ']')⟩,
    ⟨.greedy, isBlank⟩, ⟨.greedy, fun c => !isBlank c⟩, ⟨.greedy, isBlank⟩, ⟨.once, (· = '→')⟩,
      ⟨.greedy, isBlank⟩,
    ⟨.lazy, (· ≠ '\n')⟩, ⟨.once, (· = ':')⟩, ⟨.greedy, isPad⟩]

/-- What each piece of the expression took. -/
abbrev Match := List (List Char)

def Match.size (found : Match) : Nat := found.flatten.length

def Match.label (found : Match) : List Char := found.getD 1 []

def Match.id (found : Match) : List Char := found.getD 4 []

def Match.sender (found : Match) : List Char := found.getD 7 []

def Match.recipient (found : Match) : List Char := found.getD 11 []

/-- `hcomMessagePattern.FindAllStringSubmatchIndex(body, -1)` -/
def findMessages (body : List Char) : List (Nat × Match) :=
  findAll (matchPieces hcomMessagePattern) Match.size 0 0 body

def newMessages : List Char := " new messages] | ".toList

def newMessage : List Char := " new message] | ".toList

/-- The digits of `^\[([0-9]+) new messages?\] \| `. -/
def hcomBatchPattern : List Char → Option (List Char)
  | '[' :: rest =>
    let digits := rest.takeWhile Char.isDigit
    let after := rest.dropWhile Char.isDigit
    if digits ≠ [] ∧ (newMessages <+: after ∨ newMessage <+: after) then some digits else none
  | _ => none

/-- `strconv.Atoi` of digits. -/
def atoi (digits : List Char) : Option Nat :=
  let n := Nat.ofDigitChars 10 digits 0
  if n < 2 ^ 63 then some n else none

/-! ## The readers -/

def trimSpace (text : List Char) : List Char :=
  ((text.dropWhile isSpace).reverse.dropWhile isSpace).reverse

def cutPrefix (text lead : List Char) : Option (List Char) :=
  if lead <+: text then some (text.drop lead.length) else none

def cutSuffix (text tail : List Char) : Option (List Char) :=
  if tail <:+ text then some (text.take (text.length - tail.length)) else none

/-- `strings.Cut(text, ":")` -/
def cutColon (text : List Char) : List Char × List Char :=
  (text.takeWhile (· ≠ ':'), (text.dropWhile (· ≠ ':')).drop 1)

def slice (text : List Char) (start stop : Nat) : List Char := (text.take stop).drop start

structure Delivery where
  intent : Option (List Char)
  messageID : Option (List Char)
  sender : Option (List Char)
  recipient : Option (List Char)
  thread : Option (List Char)
  text : List Char
  deriving DecidableEq

def Delivery.whole (text : List Char) : Delivery := ⟨none, none, none, none, none, text⟩

/-- One delivery a boundary, its text reaching to the next one. -/
def split (strip : List Char → List Char → List Char) (body : List Char) :
    List (Nat × Match) → List Delivery
  | [] => []
  | (start, found) :: later =>
    let (intent, thread) := cutColon (trimSpace found.label)
    let intent := trimSpace intent
    -- The last text reaches to the end of the body.
    let textEnd := (later.head?.map Prod.fst).getD body.length
    { intent := some intent
      messageID := some found.id
      sender := some found.sender
      recipient := some (trimSpace found.recipient)
      thread := if thread = [] then none else some (trimSpace thread)
      text := strip (trimSpace (slice body (start + found.size) textEnd)) intent } ::
      split strip body later

def orWhole (body : List Char) (deliveries : List Delivery) : List Delivery :=
  if deliveries = [] then [.whole body] else deliveries

namespace Claude

def stripHcomDeliveryTip (text intent : List Char) : List Char :=
  let tip :=
    if intent = "request".toList then "\n[tip] intent=request: Sender expects a response.".toList
    else if intent = "inform".toList then
      "\n[tip] intent=inform: Sender doesn't expect a response.".toList
    else if intent = "ack".toList then
      "\n[tip] intent=ack: Sender confirmed receipt. No response needed.".toList
    else []
  (cutSuffix text tip).getD text

def hcomDeliveryBoundaries (body : List Char) : List (Nat × Match) :=
  let found := findMessages body
  match hcomBatchPattern body with
  | some digits =>
    match atoi digits with
    | some announced => if 2 ≤ announced ∧ found.length = announced then found else []
    | none => []
  -- One message, which only its own header at the start can name.
  | none => if (found.head?.map Prod.fst) = some 0 then found.take 1 else []

/-- The text between the tags. -/
def body (text : List Char) : Option (List Char) := do
  let text ← cutPrefix (trimSpace text) "<hcom>".toList
  let text ← cutSuffix text "</hcom>".toList
  return trimSpace text

def parseHcomDeliveryEnvelope (text : List Char) : Option (List Delivery) := do
  let body ← body text
  return orWhole (trimSpace body) (split stripHcomDeliveryTip body (hcomDeliveryBoundaries body))

end Claude

namespace Codex

def body (text : List Char) : List Char :=
  let text := trimSpace text
  let text := (cutPrefix text "<hcom>".toList).getD text
  trimSpace ((cutSuffix text "</hcom>".toList).getD text)

def normalizeHcomDelivery (text : List Char) : List Delivery :=
  let body := body text
  orWhole body (split (fun text _ => text) body (findMessages body))

end Codex

inductive Reader where
  | claude | codex
  deriving DecidableEq

def Reader.body : Reader → List Char → Option (List Char)
  | .claude, text => Claude.body text
  | .codex, text => some (Codex.body text)

/-- The headers at which a body is split. -/
def Reader.boundaries : Reader → List Char → List (Nat × Match)
  | .claude, body => Claude.hcomDeliveryBoundaries body
  | .codex, body => findMessages body

def Reader.deliveries : Reader → List Char → Option (List Delivery)
  | .claude, text => Claude.parseHcomDeliveryEnvelope text
  | .codex, text => some (Codex.normalizeHcomDelivery text)

/-! ## The queue -/

structure QueueCandidate where
  sender : List Char
  recipient : List Char
  recipientBase : List Char
  intent : List Char
  thread : List Char

/-- Keyed by a message's number, as text. -/
structure Candidates where
  get : List Char → Option QueueCandidate
  numbered : get [] = none

inductive Entry where
  | hcomDelivery (deliveries : List Delivery)
  | compactDivider (timestamp : List Char)
  | other

/-- The zero time is `0`. -/
structure QueueProof where
  excluded : List (List Char)
  honorCompactBoundary : Bool
  latestCompact : Int

def QueueProof.observeDelivery (candidates : Candidates) (proof : QueueProof)
    (delivery : Delivery) : QueueProof :=
  let messageID := delivery.messageID.getD []
  let recipient := delivery.recipient.getD []
  match candidates.get messageID with
  | some candidate =>
    -- It is the candidate only if all of its header agrees.
    if delivery.sender.getD [] = candidate.sender ∧
        (recipient = candidate.recipient ∨ candidate.recipientBase ≠ [] ∧
          recipient = candidate.recipientBase) ∧
        delivery.intent.getD [] = candidate.intent ∧ delivery.thread.getD [] = candidate.thread then
      { proof with excluded := messageID :: proof.excluded }
    else proof
  | none => proof

def QueueProof.observe (parse : List Char → Option Int) (candidates : Candidates) :
    QueueProof → List Entry → Except (List Char) QueueProof
  | proof, [] => .ok proof
  | proof, .hcomDelivery deliveries :: rest =>
      observe parse candidates (deliveries.foldl (observeDelivery candidates) proof) rest
  | proof, .compactDivider timestamp :: rest =>
    if proof.honorCompactBoundary then
      match parse timestamp with
      -- A boundary whose time cannot be read proves nothing.
      | none => .error timestamp
      | some boundary => observe parse candidates
          { proof with latestCompact := max boundary proof.latestCompact } rest
    else observe parse candidates proof rest
  | proof, .other :: rest => observe parse candidates proof rest

/-! ## Envelopes -/

/-- The header of a message, as `[label #id] sender → recipient: `. -/
structure Header where
  label : List Char
  id : List Char
  sender : List Char
  recipient : List Char
  labelled : ∀ c ∈ label, isLabel c = true
  /-- The last of the label is none of the blanks that follow it. -/
  labelEnds : ∃ c ∈ label.getLast?, isBlank c = false
  idNonempty : id ≠ []
  digits : ∀ c ∈ id, c.isDigit = true
  senderNonempty : sender ≠ []
  senderWord : ∀ c ∈ sender, isBlank c = false
  recipientStarts : ∃ c ∈ recipient.head?, isBlank c = false
  recipientLine : ∀ c ∈ recipient, c ≠ '\n'
  /-- The colon that ends the recipient is the first with a pad after it. -/
  recipientEnds : ∀ pad, isPad pad = true → ¬ [':', pad] <:+: recipient

def Header.written (header : Header) : List Char :=
  '[' :: (header.label ++ (' ' :: '#' :: (header.id ++ (']' :: ' ' :: (header.sender ++
    (' ' :: '→' :: ' ' :: (header.recipient ++ [':', ' '])))))))

structure Message where
  header : Header
  text : List Char

def Message.written (message : Message) : List Char := message.header.written ++ message.text

/-- The expression's match at the header of a message. -/
def Message.found (message : Message) : Match :=
  [['['], message.header.label, [' '], ['#'], message.header.id, [']'], [' '],
    message.header.sender, [' '], ['→'], [' '],
    message.header.recipient, [':'], ' ' :: message.text.takeWhile isPad]

def announcement (k : Nat) : List Char :=
  if 2 ≤ k then '[' :: (Nat.toDigits 10 k ++ newMessages) else []

/-- The body of an envelope. -/
def envelope (messages : List Message) : List Char :=
  announcement messages.length ++ (messages.map Message.written).flatten

/-- Where the messages' own headers are. -/
def headers : Nat → List Message → List (Nat × Match)
  | _, [] => []
  | start, message :: rest => (start, message.found) :: headers
      (start + message.written.length) rest

def realHeaders (messages : List Message) : List (Nat × Match) :=
  headers (announcement messages.length).length messages

/-- A text contains text that the header expression matches. -/
def Disguised (messages : List Message) : Prop :=
  ∃ message ∈ messages, ∃ p, (matchPieces hcomMessagePattern (message.text.drop p)).isSome

/-- The delivery is of one of the messages, or names none. -/
def Delivery.Genuine (messages : List Message) (delivery : Delivery) : Prop :=
  (delivery.messageID = none ∧ delivery.sender = none ∧ delivery.recipient = none) ∨
    ∃ message ∈ messages, delivery.messageID = some message.header.id ∧
      delivery.sender = some message.header.sender ∧
      delivery.recipient = some (trimSpace message.header.recipient)

/-- No text of a message passes for a message. -/
structure Faithful (reader : Reader) (messages : List Message) (deliveries : List Delivery) :
    Prop where
  /-- The body is split at the messages' headers, or not at all. -/
  boundaries : reader.boundaries (envelope messages) = realHeaders messages ∨
    reader.boundaries (envelope messages) = []
  genuine : ∀ delivery ∈ deliveries, delivery.Genuine messages
  /-- A queued message is only excluded for the header of a message. -/
  excluded : ∀ parse candidates proof proof',
    QueueProof.observe parse candidates proof [.hcomDelivery deliveries] = .ok proof' →
    ∀ id ∈ proof'.excluded, id ∈ proof.excluded ∨
      ∃ message ∈ messages, id = message.header.id ∧ ∃ candidate ∈ candidates.get id,
        message.header.sender = candidate.sender

/-! ## The header is found -/

theorem matched_positive {rest : List Char} {found : Match}
    (there : matchPieces hcomMessagePattern rest = some found) :
    0 < found.size := by
  obtain ⟨fits, -⟩ := matchPieces_sound there
  cases fits with
  | cons fit _ =>
    have nonempty := List.length_pos_iff.mpr fit.nonempty
    rw [Match.size, List.flatten_cons, List.length_append]
    omega

/-- A match starts with a bracket. -/
theorem matched_head {rest : List Char} (matched : (matchPieces hcomMessagePattern rest).isSome) :
    rest.head? = some '[' := by
  obtain ⟨found, there⟩ := Option.isSome_iff_exists.mp matched
  obtain ⟨fits, here⟩ := matchPieces_sound there
  cases fits with
  | @cons _ part _ parts fit _ =>
    obtain ⟨c, rfl⟩ := List.length_eq_one_iff.mp (fit.once rfl)
    obtain ⟨more, rfl⟩ := here
    have bracket := fit.accepted c List.mem_cons_self
    simp only [decide_eq_true_eq] at bracket
    rw [bracket]
    rfl

/-- Short of its end, a label is not followed by a blank and a hash. -/
theorem label_shorter {header : Header} {pieces : List (Piece Char)} {rest : List Char} {n : Nat}
    (short : n < header.label.length) :
    matchPieces (⟨.greedy, isBlank⟩ :: ⟨.once, (· = '#')⟩ :: pieces)
      (header.label.drop n ++ ' ' :: '#' :: rest) = none := by
  rw [Option.eq_none_iff_forall_ne_some]
  intro parts found
  obtain ⟨fits, here⟩ := matchPieces_sound found
  cases fits with
  | @cons _ blanks _ parts fit fits =>
    cases fits with
    | @cons _ hash _ parts hashFits _ =>
      obtain ⟨c, rfl⟩ := List.length_eq_one_iff.mp (hashFits.once rfl)
      have isHash : c = '#' := by simpa using hashFits.accepted c List.mem_cons_self
      subst isHash
      obtain ⟨last, ends, notBlank⟩ := header.labelEnds
      have inLabel : last ∈ header.label.drop n := by
        have endsHere : (header.label.drop n).getLast? = some last := by
          rw [List.getLast?_drop, if_neg (by omega)]
          exact ends
        exact List.mem_of_getLast? endsHere
      obtain ⟨more, equal⟩ := here
      rw [List.flatten_cons, List.flatten_cons, List.append_assoc, List.append_assoc] at equal
      rcases List.append_eq_append_iff.mp equal with ⟨left, split, later⟩ | ⟨left, split, later⟩
      · -- The hash is in the label.
        cases left with
        | nil =>
          rw [List.append_nil] at split
          exact absurd (fit.accepted last (split ▸ inLabel)) (by simp [notBlank])
        | cons c left =>
          have hash : c = '#' := (List.cons.inj later).1.symm
          have inside : '#' ∈ header.label := by
            have member : '#' ∈ header.label.drop n := by rw [split, hash]; simp
            exact List.mem_of_mem_drop member
          exact absurd (header.labelled '#' inside) (by decide)
      · exact absurd (fit.accepted last (split ▸ List.mem_append_left _ inLabel))
          (by simp [notBlank])

/-- Short of its end, a recipient is not followed by a colon and a pad. -/
theorem recipient_shorter {header : Header} {rest : List Char} {n : Nat}
    (short : n < header.recipient.length) :
    matchPieces [⟨.once, (· = ':')⟩, ⟨.greedy, isPad⟩] (header.recipient.drop n ++ ':' :: rest) =
      none := by
  rw [Option.eq_none_iff_forall_ne_some]
  intro parts found
  obtain ⟨fits, here⟩ := matchPieces_sound found
  cases fits with
  | @cons _ colon _ parts colonFits fits =>
    cases fits with
    | @cons _ pads _ parts padFits _ =>
      obtain ⟨c, rfl⟩ := List.length_eq_one_iff.mp (colonFits.once rfl)
      have isColon : c = ':' := by simpa using colonFits.accepted c List.mem_cons_self
      subst isColon
      obtain ⟨pad, pads, rfl⟩ := List.exists_cons_of_ne_nil padFits.nonempty
      have padded := padFits.accepted pad List.mem_cons_self
      obtain ⟨more, equal⟩ := here
      rw [List.flatten_cons, List.flatten_cons, List.drop_eq_getElem_cons short] at equal
      simp only [List.cons_append, List.nil_append, List.cons.injEq] at equal
      obtain ⟨first, next⟩ := equal
      by_cases last : n + 1 < header.recipient.length
      · rw [List.drop_eq_getElem_cons last] at next
        have second := (List.cons.inj next).1
        refine header.recipientEnds pad padded
          ⟨header.recipient.take n, header.recipient.drop (n + 1 + 1), ?_⟩
        conv => rhs; rw [← List.take_append_drop n header.recipient,
          List.drop_eq_getElem_cons short, List.drop_eq_getElem_cons last]
        rw [← first, ← second, List.append_assoc]
        rfl
      · rw [List.drop_eq_nil_of_le (by omega)] at next
        rw [(List.cons.inj next).1] at padded
        exact absurd padded (by decide)

/-- At its place, a message's header is what the expression finds. -/
theorem matched_header (message : Message) {rest : List Char}
    (stops : ∀ c ∈ rest.head?, isPad c = false) :
    matchPieces hcomMessagePattern (message.written ++ rest) = some message.found := by
  obtain ⟨header, text⟩ := message
  obtain ⟨last, labelEnds, -⟩ := header.labelEnds
  obtain ⟨first, recipientStarts, firstWord⟩ := header.recipientStarts
  have labelNonempty : header.label ≠ [] := by
    intro none
    rw [none] at labelEnds
    simp at labelEnds
  have recipientNonempty : header.recipient ≠ [] := by
    intro none
    rw [none] at recipientStarts
    simp at recipientStarts
  have pads : matchPieces [⟨.greedy, isPad⟩] (' ' :: (text ++ rest)) =
      some [' ' :: text.takeWhile isPad] := by
    have nextStops : ∀ c ∈ (text.dropWhile isPad ++ rest).head?, isPad c = false := by
      intro c head
      cases remaining : text.dropWhile isPad with
      | nil =>
        rw [remaining] at head
        exact stops c head
      | cons next _ =>
        rw [remaining, List.cons_append, List.head?_cons, Option.mem_some_iff] at head
        have stopped := List.head?_dropWhile_not isPad text
        rw [remaining, List.head?_cons] at stopped
        rw [← head]
        exact stopped
    have padded : ∀ c ∈ ' ' :: text.takeWhile isPad, isPad c = true := by
      intro c inside
      cases inside with
      | head => rfl
      | tail _ inside => exact List.mem_takeWhile_imp inside
    have taken :=
      @matchPieces_greedy Char [] isPad _ _ [] (List.cons_ne_nil _ _) padded nextStops rfl
    rwa [List.cons_append, ← List.append_assoc, List.takeWhile_append_dropWhile] at taken
  have blank : ∀ {pieces : List (Piece Char)} {rest : List Char} {parts : Match}
    (_ : ∀ c ∈ rest.head?, isBlank c = false)
      (_ : matchPieces pieces rest = some parts),
      matchPieces (⟨.greedy, isBlank⟩ :: pieces) (' ' :: rest) = some ([' '] :: parts) := by
    intro pieces rest parts stops later
    exact @matchPieces_greedy Char pieces isBlank [' '] rest parts (by simp)
      (List.forall_mem_singleton.mpr (by decide)) stops later
  simp only [Message.written, Header.written, List.append_assoc, List.cons_append, List.nil_append]
  -- The pieces of the pattern in their order, each against what the header wrote for it.
  refine matchPieces_once rfl ?_
  refine matchPieces_lazy labelNonempty header.labelled (fun n _ short => label_shorter short) ?_
  refine blank (by simp; decide) ?_
  refine matchPieces_once rfl ?_
  refine matchPieces_greedy header.idNonempty header.digits (by simp) ?_
  refine matchPieces_once rfl ?_
  refine blank ?_ ?_
  · obtain ⟨c, word, sender⟩ := List.exists_cons_of_ne_nil header.senderNonempty
    rw [sender]
    rintro d ⟨⟩
    exact header.senderWord c (by simp [sender])
  refine matchPieces_greedy header.senderNonempty
    (fun c inside => by simp [header.senderWord c inside]) (by simp; decide) ?_
  refine blank (by simp; decide) ?_
  refine matchPieces_once rfl ?_
  refine blank ?_ ?_
  · obtain ⟨c, word, recipient⟩ := List.exists_cons_of_ne_nil recipientNonempty
    rw [recipient] at recipientStarts ⊢
    rw [← Option.mem_some_iff.mp recipientStarts] at firstWord
    rintro d ⟨⟩
    exact firstWord
  refine matchPieces_lazy recipientNonempty
    (fun c inside => by simp [header.recipientLine c inside])
    (fun n _ short => recipient_shorter short) ?_
  exact matchPieces_once rfl pads

/-! ## Where the headers are -/

theorem size_found (message : Message) :
    message.found.size = message.header.written.length + (message.text.takeWhile isPad).length := by
  simp only [Match.size, Message.found, Header.written, List.flatten_cons, List.flatten_nil,
    List.length_append, List.length_cons,
    List.length_nil]
  omega

/-- A header's match ends in the message. -/
theorem size_found_le (message : Message) : message.found.size ≤ message.written.length := by
  have pads := ( List.takeWhile_prefix (l := message.text) isPad).length_le
  rw [size_found, Message.written, List.length_append]
  omega

theorem mem_headers {start : Nat} {messages : List Message} {hit : Nat × Match} :
    hit ∈ headers start messages ↔ ∃ before message after, messages = before ++ message :: after ∧
      hit = (start + (before.map Message.written).flatten.length, message.found) := by
  induction messages generalizing start with
  | nil => simp [headers]
  | cons message messages inductionHypothesis =>
    rw [headers, List.mem_cons, inductionHypothesis]
    constructor
    · rintro (rfl | ⟨before, real, after, rfl, rfl⟩)
      · exact ⟨[], message, messages, rfl, rfl⟩
      · refine ⟨message :: before, real, after, rfl, ?_⟩
        rw [List.map_cons, List.flatten_cons, List.length_append, Nat.add_assoc]
    · rintro ⟨before, real, after, split, rfl⟩
      cases before with
      | nil =>
        obtain ⟨rfl, rfl⟩ := List.cons.inj split
        exact .inl rfl
      | cons first before =>
        obtain ⟨rfl, rfl⟩ := List.cons.inj split
        refine .inr ⟨before, real, after, rfl, ?_⟩
        rw [List.map_cons, List.flatten_cons, List.length_append, Nat.add_assoc]

/-- A header in a text is found, or reached into by a match that is none of the messages' own. -/
theorem disguised_found {messages : List Message} (disguised : Disguised messages) :
    ∃ hit ∈ findMessages (envelope messages), hit ∉ realHeaders messages := by
  obtain ⟨message, member, p, matched⟩ := disguised
  obtain ⟨before, after, rfl⟩ := List.append_of_mem member
  have bracket := matched_head matched
  have inText : p < message.text.length := by
    rw [List.head?_drop] at bracket
    exact (List.getElem?_eq_some_iff.mp bracket).1
  obtain ⟨lead, isLead⟩ : ∃ lead, announcement (before ++ message :: after).length = lead :=
    ⟨_, rfl⟩
  let start := lead.length + (before.map Message.written).flatten.length
  have whole : envelope (before ++ message :: after) = lead ++
    (before.map Message.written).flatten ++ message.header.written ++
      (message.text ++ (after.map Message.written).flatten) := by
    simp only [envelope, isLead, List.map_append, List.map_cons, List.flatten_append,
      List.flatten_cons, Message.written,
      List.append_assoc]
  have here :
    (envelope (before ++ message :: after)).drop (start + message.header.written.length + p) =
      message.text.drop p ++ (after.map Message.written).flatten := by
    rw [whole, ← List.drop_drop, List.drop_left' (by rw [List.length_append, List.length_append])]
    exact List.drop_append_of_le_length (by omega)
  have within : start + message.header.written.length + p <
      (envelope (before ++ message :: after)).length := by
    rw [whole]
    simp only [List.length_append, start]
    omega
  obtain ⟨hit, found, above, below⟩ :=
    @findAll_covers _ _ (matchPieces hcomMessagePattern) Match.size _
    (fun _ _ => matched_positive) 0 0 _ rfl _ (Nat.zero_le _) within
      (by rw [here]; exact matchPieces_append matched _)
  refine ⟨hit, found, fun real => ?_⟩
  rw [realHeaders, isLead] at real
  obtain ⟨before', message', after', split, rfl⟩ := mem_headers.mp real
  change lead.length + (before'.map Message.written).flatten.length ≤ _ at above
  change _ < lead.length + (before'.map Message.written).flatten.length +
    message'.found.size at below
  by_cases same : before = before'
  · -- The header of the message itself, whose match ends in its pads.
    subst same
    obtain ⟨rfl, rfl⟩ := List.cons.inj (List.append_cancel_left split)
    rw [size_found] at below
    have inPads : p < (message.text.takeWhile isPad).length := by omega
    have pad := List.getElem_mem inPads
    rw [List.head?_drop, List.getElem?_eq_getElem inText, Option.some.injEq] at bracket
    rw [( List.takeWhile_prefix isPad).getElem inPads, bracket] at pad
    exact absurd (List.mem_takeWhile_imp pad) (by decide)
  · rcases List.append_eq_append_iff.mp split with ⟨more, rfl, rest⟩ | ⟨more, rfl, rest⟩
    · cases more with
      | nil => exact same (List.append_nil before).symm
      | cons first more =>
        -- A header that comes later.
        obtain ⟨rfl, rfl⟩ := List.cons.inj rest
        simp only [List.map_append, List.map_cons, List.flatten_append, List.flatten_cons,
          List.length_append,
          Message.written] at above
        omega
    · cases more with
      | nil => exact same (List.append_nil before')
      | cons first more =>
        -- A header that comes earlier.
        obtain ⟨rfl, rfl⟩ := List.cons.inj rest
        have ends := size_found_le message'
        simp only [start, List.map_append, List.map_cons, List.flatten_append, List.flatten_cons,
          List.length_append] at below
        omega

/-! ## The announcement -/

theorem newMessages_eq : newMessages = ' ' :: "new messages] | ".toList := by decide

theorem batchPattern_announced (k : Nat) (rest : List Char) :
    hcomBatchPattern ('[' :: (Nat.toDigits 10 k ++ newMessages) ++ rest) =
      some (Nat.toDigits 10 k) := by
  have digits : ∀ c ∈ Nat.toDigits 10 k, c.isDigit = true := fun c inside =>
    Nat.isDigit_of_mem_toDigits (by decide) (by decide) inside
  have takes :
      (Nat.toDigits 10 k ++ (newMessages ++ rest)).takeWhile Char.isDigit = Nat.toDigits 10 k := by
    rw [List.takeWhile_append_of_pos digits, newMessages_eq]
    simp
  have leaves : (Nat.toDigits 10 k ++ (newMessages ++ rest)).dropWhile Char.isDigit = newMessages ++
      rest := by
    rw [List.dropWhile_append_of_pos digits, newMessages_eq]
    rfl
  rw [List.cons_append, List.append_assoc, hcomBatchPattern, takes, leaves]
  exact if_pos ⟨Nat.toDigits_ne_nil, .inl (List.prefix_append _ _)⟩

/-- After its digits, a label has no text up to a bracket, since a hash comes first. -/
theorem label_dropWhile {header : Header} {plain more : List Char} (noHash : '#' ∉ plain) :
    ¬ plain ++ [']'] <+: (header.label ++ ' ' :: '#' :: more).dropWhile Char.isDigit := by
  rintro ⟨tail, here⟩
  have digits : '#' ∉ (header.label ++ ' ' :: '#' :: more).takeWhile Char.isDigit := fun inside =>
    absurd (List.mem_takeWhile_imp inside) (by decide)
  have both : (header.label ++ ' ' :: '#' :: more).takeWhile Char.isDigit ++ (plain ++ [']']) <+:
      header.label ++ ' ' :: '#' :: more := by
    refine ⟨tail, ?_⟩
    rw [List.append_assoc, here, List.takeWhile_append_dropWhile]
  have hash : header.label ++ [' ', '#'] <+: header.label ++ ' ' :: '#' :: more := ⟨more, by simp⟩
  rcases List.prefix_or_prefix_of_prefix both hash with short | short
  · -- The bracket is in the label.
    have inside : ']' ∈ header.label ++ [' ', '#'] := short.subset (by simp)
    rcases List.mem_append.mp inside with inside | inside
    · exact absurd (header.labelled ']' inside) (by decide)
    · exact absurd inside (by decide)
  · have inside : '#' ∈ (header.label ++ ' ' :: '#' :: more).takeWhile Char.isDigit ++
      (plain ++ [']']) := short.subset (by simp)
    rcases List.mem_append.mp inside with inside | inside
    · exact digits inside
    · rcases List.mem_append.mp inside with inside | inside
      · exact noHash inside
      · exact absurd inside (by decide)

/-- A message's header announces no batch. -/
theorem batchPattern_header (header : Header) (rest : List Char) :
    hcomBatchPattern (header.written ++ rest) = none := by
  rw [Header.written]
  simp only [List.cons_append, List.append_assoc]
  rw [hcomBatchPattern]
  refine if_neg ?_
  rintro ⟨-, here | here⟩
  · refine @label_dropWhile header " new messages".toList _ (by decide)
      (List.IsPrefix.trans ?_ here)
    exact ⟨" | ".toList, by decide⟩
  · refine @label_dropWhile header " new message".toList _ (by decide) (List.IsPrefix.trans ?_ here)
    exact ⟨" | ".toList, by decide⟩

/-! ## What the readers report -/

theorem split_genuine {strip : List Char → List Char → List Char} {body : List Char}
    {boundaries : List (Nat × Match)} :
    ∀ delivery ∈ split strip body boundaries, ∃ boundary ∈ boundaries,
      delivery.messageID = some boundary.2.id ∧
      delivery.sender = some boundary.2.sender ∧
        delivery.recipient = some (trimSpace boundary.2.recipient) := by
  induction boundaries with
  | nil => simp [split]
  | cons boundary later inductionHypothesis =>
    intro delivery inside
    rw [split] at inside
    cases inside with
    | head => exact ⟨boundary, List.mem_cons_self, rfl, rfl, rfl⟩
    | tail _ inside =>
      obtain ⟨boundary, member, named⟩ := inductionHypothesis delivery inside
      exact ⟨boundary, List.mem_cons_of_mem _ member, named⟩

/-- Split at the messages' headers or not at all, a body is taken for nothing but its messages. -/
theorem orWhole_genuine {strip : List Char → List Char → List Char} {messages : List Message}
    {body whole : List Char}
    {boundaries : List (Nat × Match)} (real : boundaries = realHeaders messages ∨ boundaries = []) :
    ∀ delivery ∈ orWhole whole (split strip body boundaries), delivery.Genuine messages := by
  intro delivery inside
  rw [orWhole] at inside
  split at inside
  · rw [List.mem_singleton.mp inside]
    exact .inl ⟨rfl, rfl, rfl⟩
  · obtain ⟨boundary, member, named⟩ := split_genuine delivery inside
    rcases real with rfl | rfl
    · obtain ⟨before, message, after, rfl, rfl⟩ := mem_headers.mp member
      exact .inr ⟨message, by simp, named⟩
    · exact absurd member (by simp)

theorem observeDelivery_excluded {messages : List Message} {candidates : Candidates}
    {proof : QueueProof} {delivery : Delivery}
    (genuine : delivery.Genuine messages) :
    ∀ id ∈ (proof.observeDelivery candidates delivery).excluded, id ∈ proof.excluded ∨
      ∃ message ∈ messages, id = message.header.id ∧ ∃ candidate ∈ candidates.get id,
        message.header.sender = candidate.sender := by
  intro id inside
  unfold QueueProof.observeDelivery at inside
  dsimp only at inside
  split at inside
  · next candidate known =>
    split at inside
    · next agrees =>
      cases inside with
      | tail _ inside => exact .inl inside
      | head =>
        rcases genuine with ⟨unnamed, -, -⟩ | ⟨message, member, named, sender, -⟩
        · rw [unnamed, Option.getD_none, candidates.numbered] at known
          exact absurd known (by simp)
        · refine .inr ⟨message, member, by rw [named]; rfl, candidate, known, ?_⟩
          rw [← agrees.1, sender]
          rfl
    · exact .inl inside
  · exact .inl inside

/-- Deliveries of the messages only exclude messages of the envelope. -/
theorem observe_excluded {messages : List Message} {candidates : Candidates}
    {deliveries : List Delivery}
    (genuine : ∀ delivery ∈ deliveries, delivery.Genuine messages) (proof : QueueProof) :
    ∀ id ∈ (deliveries.foldl (QueueProof.observeDelivery candidates) proof).excluded,
      id ∈ proof.excluded ∨
      ∃ message ∈ messages, id = message.header.id ∧ ∃ candidate ∈ candidates.get id,
        message.header.sender = candidate.sender := by
  induction deliveries generalizing proof with
  | nil => exact fun id inside => .inl inside
  | cons delivery deliveries inductionHypothesis =>
    intro id inside
    rcases inductionHypothesis (fun other member => genuine other (List.mem_cons_of_mem _ member)) _
      id inside with inside | real
    · exact observeDelivery_excluded (genuine delivery List.mem_cons_self) id inside
    · exact .inr real

theorem deliveries_eq {reader : Reader} {text body : List Char}
    (read : reader.body text = some body) :
    ∃ whole strip, reader.deliveries text =
      some (orWhole whole (split strip body (reader.boundaries body))) := by
  cases reader with
  | claude =>
    have read : Claude.body text = some body := read
    refine ⟨trimSpace body, Claude.stripHcomDeliveryTip, ?_⟩
    rw [Reader.deliveries, Claude.parseHcomDeliveryEnvelope, read]
    rfl
  | codex =>
    obtain rfl := Option.some.inj read
    exact ⟨Codex.body text, fun text _ => text, rfl⟩

/-- A reader that splits a body at the messages' headers, or not at all, reports nothing but its
messages. -/
theorem faithful_of_boundaries {reader : Reader} {messages : List Message} {text : List Char}
    {deliveries : List Delivery}
    (read : reader.body text = some (envelope messages))
    (reported : reader.deliveries text = some deliveries)
    (boundaries : reader.boundaries (envelope messages) = realHeaders messages ∨
    reader.boundaries (envelope messages) = []) :
    Faithful reader messages deliveries := by
  obtain ⟨whole, strip, equal⟩ := deliveries_eq read
  obtain rfl := Option.some.inj (reported.symm.trans equal)
  have genuine := @orWhole_genuine strip messages (envelope messages) whole _ boundaries
  refine ⟨boundaries, genuine, ?_⟩
  intro parse candidates proof proof' observed
  obtain rfl := Except.ok.inj observed
  exact observe_excluded genuine proof

/-! ## When no text passes for a message -/

theorem findMessages_ne_realHeaders {messages : List Message} (disguised : Disguised messages) :
    findMessages (envelope messages) ≠ realHeaders messages := by
  obtain ⟨hit, found, notReal⟩ := disguised_found disguised
  intro same
  exact notReal (same ▸ found)

theorem findMessages_ne_nil {messages : List Message} (disguised : Disguised messages) :
    findMessages (envelope messages) ≠ [] := by
  obtain ⟨hit, found, -⟩ := disguised_found disguised
  exact List.ne_nil_of_mem found

/-- Of a single message, the Claude reader takes its own header and no other. -/
theorem claude_single (message : Message) :
    Claude.hcomDeliveryBoundaries (envelope [message]) = realHeaders [message] := by
  have body : envelope [message] = message.header.written ++ message.text := by
    simp [envelope, announcement, Message.written]
  have there : matchPieces hcomMessagePattern (message.written ++ []) = some message.found :=
    matched_header message (by simp)
  have found : ∃ later, findMessages (envelope [message]) = (0, message.found) :: later := by
    have pads : (message.header.written ++ message.text.takeWhile isPad) ++
        message.text.dropWhile isPad = envelope [message] := by
      rw [body, List.append_assoc, List.takeWhile_append_dropWhile]
    have size :
        message.found.size = (message.header.written ++ message.text.takeWhile isPad).length := by
      rw [size_found, List.length_append]
    rw [List.append_nil, Message.written, ← body, ← pads] at there
    rw [findMessages, ← pads]
    exact ⟨_, findAll_match there size (matched_positive there)⟩
  obtain ⟨later, found⟩ := found
  have noBatch : hcomBatchPattern (envelope [message]) = none := by
    rw [body]
    exact batchPattern_header _ _
  unfold Claude.hcomDeliveryBoundaries
  rw [noBatch, found]
  rfl

/-- Of a batch, the Claude reader takes what it finds if that is as many headers as are announced.
-/
theorem claude_batch {messages : List Message} (batch : 2 ≤ messages.length) :
    Claude.hcomDeliveryBoundaries (envelope messages) =
      if messages.length < 2 ^ 63 ∧ (findMessages (envelope messages)).length = messages.length then
        findMessages (envelope messages)
      else [] := by
  have announced :
      hcomBatchPattern (envelope messages) = some (Nat.toDigits 10 messages.length) := by
    rw [envelope, announcement, if_pos batch]
    exact batchPattern_announced _ _
  unfold Claude.hcomDeliveryBoundaries
  simp only [announced, atoi, Nat.ofDigitChars_ten_toDigits]
  by_cases small : messages.length < 2 ^ 63
  · simp only [small, if_true, true_and, batch]
  · simp only [small, if_false, false_and]

/-- With a header in a message's text, a body is split at the messages' headers or kept whole
exactly if the Claude reader reads it and it is of one message, or its headers are not as many
as its messages. -/
theorem boundaries_real_iff {reader : Reader} {messages : List Message} (nonempty : messages ≠ [])
    (disguised : Disguised messages) :
    (reader.boundaries (envelope messages) = realHeaders messages ∨
    reader.boundaries (envelope messages) = []) ↔
      reader = .claude ∧ (messages.length = 1 ∨
        (findMessages (envelope messages)).length ≠ messages.length ∨
        2 ^ 63 ≤ messages.length) := by
  have forged :
      ¬ (findMessages (envelope messages) = realHeaders messages ∨
      findMessages (envelope messages) = []) := by
    rintro (real | none)
    · exact findMessages_ne_realHeaders disguised real
    · exact findMessages_ne_nil disguised none
  cases reader with
  | codex =>
    constructor
    · intro real
      exact absurd real forged
    · rintro ⟨isClaude, -⟩
      cases isClaude
  | claude =>
    change (Claude.hcomDeliveryBoundaries _ = _ ∨ Claude.hcomDeliveryBoundaries _ = _) ↔ _
    by_cases single : messages.length = 1
    · obtain ⟨message, rfl⟩ := List.length_eq_one_iff.mp single
      exact ⟨fun _ => ⟨rfl, .inl rfl⟩, fun _ => .inl (claude_single message)⟩
    · have batch : 2 ≤ messages.length := by
        have positive := List.length_pos_iff.mpr nonempty
        omega
      rw [claude_batch batch]
      split
      · next counted =>
        constructor
        · intro real
          exact absurd real forged
        · rintro ⟨-, one | many | long⟩
          · exact absurd one single
          · exact absurd counted.2 many
          · omega
      · next miscounted => exact ⟨fun _ => ⟨rfl, .inr (by omega)⟩, fun _ => .inr rfl⟩

/-- Where a message's text contains a header, the deliveries reported are the messages of the
envelope, or one that is the whole of it, exactly if the Claude reader reads a single message or
a batch in which it finds more or fewer headers than are announced. -/
theorem delivery_genuine_iff {reader : Reader} {messages : List Message} {text : List Char}
    (nonempty : messages ≠ [])
    (read : reader.body text = some (envelope messages)) (disguised : Disguised messages) :
    ∃ deliveries, reader.deliveries text = some deliveries ∧
      (Faithful reader messages deliveries ↔ reader = .claude ∧ (messages.length = 1 ∨
        (findMessages (envelope messages)).length ≠ messages.length ∨
        2 ^ 63 ≤ messages.length)) := by
  obtain ⟨whole, strip, reported⟩ := deliveries_eq read
  refine ⟨_, reported, ?_⟩
  constructor
  · intro faithful
    exact (boundaries_real_iff nonempty disguised).mp faithful.boundaries
  · intro condition
    exact faithful_of_boundaries read reported
      ((boundaries_real_iff nonempty disguised).mpr condition)

/-- A message from `b` about a header `[i #9] c → d: `. -/
def quoting : Message where
  header :=
    { label := ['i'], id := ['1'], sender := ['b'], recipient := ['a']
      labelled := List.forall_mem_singleton.mpr (by decide)
      labelEnds := ⟨'i', rfl, by decide⟩
      idNonempty := List.cons_ne_nil _ _
      digits := List.forall_mem_singleton.mpr (by decide)
      senderNonempty := List.cons_ne_nil _ _
      senderWord := List.forall_mem_singleton.mpr (by decide)
      recipientStarts := ⟨'a', rfl, by decide⟩
      recipientLine := List.forall_mem_singleton.mpr (by decide)
      recipientEnds := by
        intro pad _ inside
        have length := inside.length_le
        simp at length }
  text := ['x', ' ', '[', 'i', ' ', '#', '9', ']', ' ', 'c', ' ', '→', ' ', 'd', ':', ' ', 'y']

def quotingText : List Char :=
  ['<', 'h', 'c', 'o', 'm', '>'] ++ quoting.written ++ ['<', '/', 'h', 'c', 'o', 'm', '>']

theorem quoting_read (reader : Reader) : reader.body quotingText = some (envelope [quoting]) := by
  cases reader <;> decide +kernel

theorem quoting_disguised : Disguised [quoting] :=
  ⟨quoting, List.mem_singleton_self _, 2, by decide +kernel⟩

theorem delivery_genuine_iff_quoting :
    [quoting] ≠ [] ∧ Reader.codex.body quotingText = some (envelope [quoting]) ∧
    Disguised [quoting] ∧ ∃ deliveries, Reader.codex.deliveries quotingText = some deliveries ∧
      (Faithful .codex [quoting] deliveries ↔ Reader.codex = .claude ∧ ([quoting].length = 1 ∨
        (findMessages (envelope [quoting])).length ≠ [quoting].length ∨
        2 ^ 63 ≤ [quoting].length)) :=
  ⟨by simp, quoting_read .codex, quoting_disguised,
    delivery_genuine_iff (by simp) (quoting_read .codex) quoting_disguised⟩

/-- The Codex reader takes the header in the text for a second message, number 9. -/
theorem codex_reports_quoted : ¬ ∀ (reader : Reader) (messages : List Message) (text : List Char)
    (deliveries : List Delivery),
    messages ≠ [] → reader.body text = some (envelope messages) → Disguised messages →
      reader.deliveries text = some deliveries →
      ∀ delivery ∈ deliveries, delivery.Genuine messages := by
  intro claim
  have forged :
      ⟨some ['i'], some ['9'], some ['c'], some ['d'], none, ['y']⟩ ∈ Codex.normalizeHcomDelivery
      quotingText := by
    decide +kernel
  have genuine :=
    claim .codex [quoting] quotingText _ (by simp)
    (quoting_read .codex) quoting_disguised rfl _ forged
  rcases genuine with ⟨unnamed, -, -⟩ | ⟨message, member, named, -, -⟩
  · cases unnamed
  · rw [List.mem_singleton.mp member] at named
    exact absurd named (by decide)

end AiConfig.Herder.Deliveries
