import OpaqueStellar.Lib.Framing
import OpaqueStellar.Lib.JsonText
import OpaqueStellar.Lib.Machine
import OpaqueStellar.Lib.Utf8
import OpaqueStellar.Relayer.Messages

/-! # The gossip stream

`GET /v1/gossip/stream` of `relayer/src/http.ts`, and the `HttpGossipTransport` of
`relayer/src/gossip.ts` that reads it. A hub writes every message that it passes on to every open
stream, as one event. A node reads whatever bytes have arrived, and when the stream ends it opens
another.

Where the bytes are cut does not matter, not even inside a character (`readSse_flatten`). What a node
hands on is in the order of the hub, nothing comes twice, and of the messages since a stream was opened
it has handed on those whose events have arrived. What the hub passes on while no stream is open is
lost, and so is an event that was not complete. -/

namespace OpaqueStellar.Relayer

open OpaqueStellar.Lib OpaqueStellar.Schemas

def GOSSIP_TOPIC : Str := "opaque/stellar/jobs/v1".toList

/-! ## What the hub writes -/

section Hub

variable (numberText : ℚ → List Char)

/-- `{ topic, message }` -/
def gossipEnvelope (topic : Str) (message : JsonValue) : Dict Units JsonValue :=
  [(JsonValue.units "topic", .string (Utf16.encode topic)), (JsonValue.units "message", message)]

def commentText : Str := ": ".toList ++ GOSSIP_TOPIC

def messageText (message : JsonValue) : Str :=
  "data: ".toList ++ JsonText.writeValue numberText (.object (gossipEnvelope GOSSIP_TOPIC message))

/-- What stands before the empty line: the comment that opens a stream, or a message. -/
def eventText : Option JsonValue → Str
  | none => commentText
  | some message => messageText numberText message

/-- What a stream has been sent when these messages were passed on. -/
def streamEvents (messages : List JsonValue) : List (Option JsonValue) := none :: messages.map some

def streamBytes (messages : List JsonValue) : List UInt8 :=
  asBytes (Framing.write '\n' ['\n'] ((streamEvents messages).map (eventText numberText)))

end Hub

/-! ## What the node reads -/

def sseData (frame : Str) : Str :=
  let lines := (frame.splitOn '\n').filter fun line => "data:".toList.isPrefixOf line
  ['\n'].intercalate (lines.map fun line => (line.drop 5).dropWhile isSpace)

section Node

variable (topic : Str) (rejects : ℕ → Bool)

/-- The messages that the handlers were called with, and whether nothing was thrown. `rejects n` says
whether one of them fails on the `n`th message. -/
def handleSseFrame (handed : List (Option JsonValue)) (frame : Str) : List (Option JsonValue) × Bool :=
  if sseData frame = [] then (handed, true)
  else
    match JsonText.parse (sseData frame) with
    | none => (handed, false)
    | some envelope =>
      match envelope.property "topic" with
      | none => (handed, false)
      | some found =>
        if JsonValue.strictEq found (some (.string (Utf16.encode topic))) then
          (handed ++ [envelope.get "message"], !rejects handed.length)
        else (handed, true)

def handleSseFrames (handed : List (Option JsonValue)) : List Str → List (Option JsonValue) × Bool
  | [] => (handed, true)
  | frame :: frames =>
    match handleSseFrame topic rejects handed frame with
    | (handed, true) => handleSseFrames handed frames
    | (handed, false) => (handed, false)

structure SseReader where
  decoder : TextDecoder := {}
  buf : Str := []

/-- The next bytes, and the frames that are complete with them. -/
def SseReader.read (reader : SseReader) (chunk : List UInt8) : SseReader × List Str :=
  let decoded := reader.decoder.decode chunk
  let drained := Framing.drain '\n' ['\n'] (reader.buf ++ decoded.2)
  (⟨decoded.1, drained.2⟩, drained.1)

def readSse (reader : SseReader) (handed : List (Option JsonValue)) :
    List (List UInt8) → List (Option JsonValue) × Bool
  | [] => (handed, true)
  | chunk :: chunks =>
    match handleSseFrames topic rejects handed (reader.read chunk).2 with
    | (handed, true) => readSse (reader.read chunk).1 handed chunks
    | (handed, false) => (handed, false)

/-! ## Pieces -/

theorem handleSseFrames_append (handed : List (Option JsonValue)) (frames frames' : List Str) :
    handleSseFrames topic rejects handed (frames ++ frames') =
      match handleSseFrames topic rejects handed frames with
      | (handed, true) => handleSseFrames topic rejects handed frames'
      | (handed, false) => (handed, false) := by
  induction frames generalizing handed with
  | nil => rfl
  | cons frame frames ih =>
      rw [List.cons_append, handleSseFrames, handleSseFrames]
      rcases handleSseFrame topic rejects handed frame with ⟨handed', - | -⟩
      · rfl
      · exact ih handed'

theorem SseReader.read_append (reader : SseReader) (chunk chunk' : List UInt8) :
    reader.read (chunk ++ chunk') = (((reader.read chunk).1.read chunk').1,
      (reader.read chunk).2 ++ ((reader.read chunk).1.read chunk').2) := by
  rw [SseReader.read, TextDecoder.decode_append]
  dsimp only
  rw [← List.append_assoc, Framing.drain_append]
  rfl

/-- The reader after these bytes, and the frames that were complete. -/
def readFrom (bytes : List UInt8) : SseReader × List Str := ({} : SseReader).read bytes

theorem readFrom_append (bytes chunk : List UInt8) : readFrom (bytes ++ chunk) =
    (((readFrom bytes).1.read chunk).1, (readFrom bytes).2 ++ ((readFrom bytes).1.read chunk).2) :=
  SseReader.read_append {} bytes chunk

theorem readFrom_nil : readFrom [] = ({}, []) := by
  have hdrain : Framing.drain '\n' ['\n'] ([] : Str) = ([], []) := Framing.drain_of_none rfl
  simp [readFrom, SseReader.read, TextDecoder.decode, Utf8Decoder.feed, hdrain]

/-- No frame is left over. -/
theorem readFrom_read_nil (bytes : List UInt8) : ((readFrom bytes).1.read []).2 = [] := by
  have hrest : Framing.drain '\n' ['\n'] (readFrom bytes).1.buf = ([], (readFrom bytes).1.buf) :=
    Framing.drain_rest _
  simp [SseReader.read, TextDecoder.decode, Utf8Decoder.feed, hrest]

theorem readSse_readFrom (handed : List (Option JsonValue)) (bytes : List UInt8)
    (chunks : List (List UInt8)) : readSse topic rejects (readFrom bytes).1 handed chunks =
      handleSseFrames topic rejects handed ((readFrom bytes).1.read chunks.flatten).2 := by
  induction chunks generalizing handed bytes with
  | nil => rw [List.flatten_nil, readFrom_read_nil, readSse, handleSseFrames]
  | cons chunk chunks ih =>
      rw [readSse, List.flatten_cons, SseReader.read_append, handleSseFrames_append]
      rcases handleSseFrames topic rejects handed ((readFrom bytes).1.read chunk).2 with ⟨handed', - | -⟩
      · rfl
      · have hreader : ((readFrom bytes).1.read chunk).1 = (readFrom (bytes ++ chunk)).1 := by
          rw [readFrom_append]
        simp only [hreader, ih]

/-- **Where the bytes are cut does not matter.** -/
theorem readSse_flatten (handed : List (Option JsonValue)) (chunks : List (List UInt8)) :
    readSse topic rejects {} handed chunks =
      handleSseFrames topic rejects handed (readFrom chunks.flatten).2 := by
  have hread := readSse_readFrom topic rejects handed [] chunks
  rwa [readFrom_nil] at hread

/-! ## Reading what the hub wrote -/

variable {numberText : ℚ → List Char} {message : JsonValue} {bytes : List UInt8}

theorem plain_gossipEnvelope (topic : Str) (h : JsonText.Plain numberText message) :
    JsonText.Plain numberText (.object (gossipEnvelope topic message)) := by
  have hnames : JsonValue.units "topic" ≠ JsonValue.units "message" := by simp [JsonValue.units_inj]
  refine .object ?_ ?_
  · simp [Dict.Distinct, gossipEnvelope, hnames]
  · simp [gossipEnvelope, h, JsonText.Plain.string]

/-- Unfolded once: the text itself is never computed. -/
theorem messageText_eq (message : JsonValue) : messageText numberText message = "data: ".toList ++
    JsonText.writeValue numberText (.object (gossipEnvelope GOSSIP_TOPIC message)) := by
  delta messageText
  rfl

/-- An event is one line. -/
theorem not_mem_eventText {event : Option JsonValue}
    (h : ∀ m ∈ event, JsonText.Plain numberText m) : '\n' ∉ eventText numberText event := by
  cases event with
  | none =>
      show '\n' ∉ commentText
      decide
  | some message =>
      have hvisible := JsonText.visible_writeValue (plain_gossipEnvelope GOSSIP_TOPIC (h message rfl))
      rw [eventText, messageText_eq, List.mem_append, not_or]
      exact ⟨by decide, fun hmem => absurd (hvisible _ hmem) (by decide)⟩

theorem sseData_message (h : JsonText.Plain numberText message) :
    sseData (eventText numberText (some message)) =
      JsonText.writeValue numberText (.object (gossipEnvelope GOSSIP_TOPIC message)) := by
  have hline : (eventText numberText (some message)).splitOn '\n' =
      [eventText numberText (some message)] := by
    apply List.splitOnP_eq_singleton
    intro c hc
    rw [beq_eq_false_iff_ne]
    rintro rfl
    exact not_mem_eventText (fun m hm => Option.some.inj hm ▸ h) hc
  have hspace : isSpace ' ' = true := by decide
  have hbrace : isSpace '{' = false := by decide
  rw [sseData, hline, JsonText.writeValue]
  simp [eventText, messageText_eq, JsonText.writeValue, JsonText.writeObject, hspace, hbrace]

theorem handleSseFrame_message (handed : List (Option JsonValue)) (h : JsonText.Plain numberText message) :
    handleSseFrame GOSSIP_TOPIC rejects handed (eventText numberText (some message)) =
      (handed ++ [some message.reread], !rejects handed.length) := by
  have hplain := plain_gossipEnvelope GOSSIP_TOPIC h
  have hreread : (JsonValue.object (gossipEnvelope GOSSIP_TOPIC message)).reread =
      .object (gossipEnvelope GOSSIP_TOPIC message.reread) := by
    simp [JsonValue.reread, JsonValue.rereadMembers, gossipEnvelope]
  have htopic : (JsonValue.object (gossipEnvelope GOSSIP_TOPIC message.reread)).property "topic" =
      some (some (.string (Utf16.encode GOSSIP_TOPIC))) := by
    simp [JsonValue.property, gossipEnvelope, Dict.find]
  have hmessage : (JsonValue.object (gossipEnvelope GOSSIP_TOPIC message.reread)).get "message" =
      some message.reread := by
    simp [gossipEnvelope]
  have hnonempty : JsonText.writeValue numberText (.object (gossipEnvelope GOSSIP_TOPIC message)) ≠ [] := by
    simp [JsonText.writeValue, JsonText.writeObject]
  rw [handleSseFrame, sseData_message h, if_neg hnonempty, JsonText.parse_writeValue hplain, hreread]
  simp [htopic, hmessage, JsonValue.strictEq]

theorem handleSseFrame_comment (handed : List (Option JsonValue)) :
    handleSseFrame topic rejects handed (eventText numberText none) = (handed, true) := by
  have hdata : sseData (eventText numberText none) = [] := by
    show sseData commentText = []
    decide
  rw [handleSseFrame, if_pos hdata]

/-- What the handlers are called with for these events. -/
def delivered (events : List (Option JsonValue)) : List (Option JsonValue) :=
  (events.filterMap id).map fun message => some message.reread

variable {events : List (Option JsonValue)}

/-- Events are handed on up to the first one that is rejected. -/
theorem handleSseFrames_events (h : ∀ e ∈ events, ∀ m ∈ e, JsonText.Plain numberText m)
    (handed : List (Option JsonValue)) :
    ∃ front, front <+: events ∧
      (handleSseFrames GOSSIP_TOPIC rejects handed (events.map (eventText numberText))).1 =
        handed ++ delivered front ∧
      ((handleSseFrames GOSSIP_TOPIC rejects handed (events.map (eventText numberText))).2 = true →
        front = events) := by
  induction events generalizing handed with
  | nil => exact ⟨[], List.nil_prefix, by simp [handleSseFrames, delivered], fun _ => rfl⟩
  | cons event events ih =>
      rw [List.forall_mem_cons] at h
      rw [List.map_cons, handleSseFrames]
      cases event with
      | none =>
          obtain ⟨front, hfront, hhanded, hall⟩ := ih h.2 handed
          rw [handleSseFrame_comment]
          refine ⟨none :: front, List.cons_prefix_cons.mpr ⟨rfl, hfront⟩, ?_, ?_⟩
          · rw [hhanded]
            rfl
          · intro hok
            rw [hall hok]
      | some message =>
          rw [handleSseFrame_message rejects handed (h.1 message rfl)]
          rcases hrejects : rejects handed.length with - | -
          · obtain ⟨front, hfront, hhanded, hall⟩ := ih h.2 (handed ++ [some message.reread])
            refine ⟨some message :: front, List.cons_prefix_cons.mpr ⟨rfl, hfront⟩, ?_, ?_⟩
            · rw [Bool.not_false, hhanded, List.append_assoc]
              rfl
            · intro hok
              rw [hall hok]
          · refine ⟨[some message], ?_, rfl, ?_⟩
            · exact List.cons_prefix_cons.mpr ⟨rfl, List.nil_prefix⟩
            · intro hok
              cases hok

variable {messages : List JsonValue}

theorem plain_streamEvents (h : ∀ m ∈ messages, JsonText.Plain numberText m) :
    ∀ e ∈ streamEvents messages, ∀ m ∈ e, JsonText.Plain numberText m := by
  intro e he m hm
  obtain rfl := hm
  simp only [streamEvents, List.mem_cons, List.mem_map, reduceCtorEq, false_or] at he
  obtain ⟨m', hm', heq⟩ := he
  exact Option.some.inj heq ▸ h m' hm'

/-- There is no byte order mark. -/
theorem readFrom_stream (h : bytes <+: streamBytes numberText messages) :
    (readFrom bytes).2 = (Framing.drain '\n' ['\n'] (Utf8Decoder.start.feed bytes).2).1 := by
  have hhead : (Utf8Decoder.start.feed bytes).2.head? ≠ some (Char.ofNat 0xFEFF) := by
    rcases hfed : (Utf8Decoder.start.feed bytes).2 with - | ⟨c, text⟩
    · simp
    · obtain ⟨rest, hrest⟩ := hfed ▸ Utf8Decoder.feed_prefix h
      obtain rfl : c = ':' := (List.cons.inj hrest).1
      exact fun hmark => absurd (Option.some.inj hmark) (by decide)
  simp [readFrom, SseReader.read, TextDecoder.decode_start hhead]

/-- **Of the bytes of a stream, those frames are read of which every byte is there.** -/
theorem prefix_readFrom_iff (h : bytes <+: streamBytes numberText messages) {frames : List Str}
    (hframes : ∀ frame ∈ frames, '\n' ∉ frame) :
    frames <+: (readFrom bytes).2 ↔ asBytes (Framing.write '\n' ['\n'] frames) <+: bytes := by
  rw [readFrom_stream h, Framing.prefix_frames_iff hframes]
  exact Utf8Decoder.prefix_feed_iff h

theorem readFrom_front (hplain : ∀ m ∈ messages, JsonText.Plain numberText m)
    (h : bytes <+: streamBytes numberText messages) :
    (readFrom bytes).2 <+: (streamEvents messages).map (eventText numberText) := by
  rw [readFrom_stream h]
  refine Framing.drain_front ?_ (Utf8Decoder.feed_prefix h)
  intro frame hframe
  obtain ⟨event, hevent, rfl⟩ := List.mem_map.mp hframe
  exact not_mem_eventText (plain_streamEvents hplain event hevent)

end Node

/-! ## A hub and a node -/

structure GossipConnection where
  -- what the hub had passed on when the stream was opened
  since : ℕ
  sent : List UInt8
  -- how many bytes have arrived
  read : ℕ := 0
  reader : SseReader := {}

structure GossipState where
  published : List JsonValue := []
  handed : List (Option JsonValue) := []
  connection : Option GossipConnection := none

inductive GossipEvent where
  | publish (message : JsonValue)
  | connect
  -- the next bytes, as one chunk
  | arrive (count : ℕ)
  | close

section System

variable (numberText : ℚ → List Char) (topic : Str) (rejects : ℕ → Bool)

def GossipConnection.send (c : GossipConnection) (message : JsonValue) : GossipConnection :=
  { c with sent := c.sent ++ asBytes (Framing.write '\n' ['\n'] [eventText numberText (some message)]) }

def GossipState.step (st : GossipState) : GossipEvent → GossipState
  | .publish message =>
    { st with
      published := st.published ++ [message]
      connection := st.connection.map fun c => c.send numberText message }
  | .connect =>
    match st.connection with
    | some _ => st
    | none =>
      { st with connection := some { since := st.published.length, sent := streamBytes numberText [] } }
  | .arrive count =>
    match st.connection with
    | none => st
    | some c =>
      let chunk := (c.sent.drop c.read).take count
      match handleSseFrames topic rejects st.handed (c.reader.read chunk).2 with
      | (handed, true) =>
        let c := { c with read := c.read + chunk.length, reader := (c.reader.read chunk).1 }
        { st with handed := handed, connection := some c }
      -- what was thrown ends the stream
      | (handed, false) => { st with handed := handed, connection := none }
  | .close => { st with connection := none }

def gossipMachine : Machine GossipState GossipEvent Unit :=
  ⟨fun st event => (st.step numberText topic rejects event, ())⟩

/-! ## What is handed on -/

/-- What a message is after it was written and read. -/
def arrived (messages : List JsonValue) : List (Option JsonValue) := messages.map fun m => some m.reread

/-- The bytes up to the end of the `i`th message since the stream was opened. -/
def bytesUpTo (messages : List JsonValue) (i : ℕ) : ℕ :=
  (streamBytes numberText (messages.take (i + 1))).length

/-- Messages are handed on in order and none twice. Of those since a stream was opened, exactly the first
`count` were, whose events have arrived. -/
structure OpenStream (st : GossipState) (c : GossipConnection) (earlier : List (Option JsonValue))
    (count : ℕ) : Prop where
  sent : c.sent = streamBytes numberText (st.published.drop c.since)
  handed : st.handed = earlier ++ arrived ((st.published.drop c.since).take count)
  earlier : earlier.Sublist (arrived (st.published.take c.since))
  exact : ∀ i < (st.published.drop c.since).length,
    i < count ↔ bytesUpTo numberText (st.published.drop c.since) i ≤ c.read

structure InOrder (st : GossipState) : Prop where
  ordered : st.handed.Sublist (arrived st.published)
  connected : ∀ c, st.connection = some c → ∃ earlier count, OpenStream numberText st c earlier count

/-! ### The invariant -/

/-- A stream whose events were read up to `events`. -/
structure Streaming (published : List JsonValue) (handed : List (Option JsonValue)) (c : GossipConnection)
    (earlier events : List (Option JsonValue)) : Prop where
  since_le : c.since ≤ published.length
  sent_eq : c.sent = streamBytes numberText (published.drop c.since)
  read_le : c.read ≤ c.sent.length
  reader_eq : c.reader = (readFrom (c.sent.take c.read)).1
  frames_eq : (readFrom (c.sent.take c.read)).2 = events.map (eventText numberText)
  events_front : events <+: streamEvents (published.drop c.since)
  handed_eq : handed = earlier ++ delivered events
  earlier_sub : earlier.Sublist (arrived (published.take c.since))

structure GossipState.Inv (st : GossipState) : Prop where
  plain : ∀ m ∈ st.published, JsonText.Plain numberText m
  ordered : st.handed.Sublist (arrived st.published)
  streaming : ∀ c, st.connection = some c →
    ∃ earlier events, Streaming numberText st.published st.handed c earlier events

variable {numberText topic rejects} {st : GossipState} {c : GossipConnection} {message : JsonValue}
  {published messages : List JsonValue} {handed earlier events front : List (Option JsonValue)}

theorem delivered_front (h : front <+: streamEvents messages) :
    delivered front = arrived (messages.take (front.length - 1)) := by
  have htake := List.prefix_iff_eq_take.mp h
  cases hlength : front.length with
  | zero =>
      rw [List.eq_nil_of_length_eq_zero hlength]
      rfl
  | succ n =>
      rw [htake, hlength]
      simp [delivered, streamEvents, arrived, ← List.map_take]

theorem arrived_append (messages messages' : List JsonValue) :
    arrived (messages ++ messages') = arrived messages ++ arrived messages' := List.map_append

/-- Of a stream and what came before it. -/
theorem ordered_of_front (hearlier : earlier.Sublist (arrived (published.take c.since)))
    (hfront : front <+: streamEvents (published.drop c.since)) :
    (earlier ++ delivered front).Sublist (arrived published) := by
  have hsplit : arrived published = arrived (published.take c.since) ++ arrived (published.drop c.since) := by
    rw [← arrived_append, List.take_append_drop]
  rw [hsplit, delivered_front hfront]
  exact hearlier.append ((List.take_sublist _ _).map _)

theorem streamBytes_append (messages messages' : List JsonValue) :
    streamBytes numberText (messages ++ messages') = streamBytes numberText messages ++
      asBytes (Framing.write '\n' ['\n'] (messages'.map fun m => eventText numberText (some m))) := by
  simp [streamBytes, streamEvents, asBytes, Framing.write, List.flatMap_map]

theorem Streaming.send (h : Streaming numberText published handed c earlier events) (message : JsonValue) :
    Streaming numberText (published ++ [message]) handed (c.send numberText message) earlier events := by
  have hdrop : (published ++ [message]).drop c.since = published.drop c.since ++ [message] :=
    List.drop_append_of_le_length h.since_le
  have htake : (published ++ [message]).take c.since = published.take c.since :=
    List.take_append_of_le_length h.since_le
  have hsent : (c.send numberText message).sent.take c.read = c.sent.take c.read :=
    List.take_append_of_le_length h.read_le
  have hevents : streamEvents (published.drop c.since) <+:
      streamEvents (published.drop c.since ++ [message]) :=
    ⟨[some message], by simp [streamEvents]⟩
  refine ⟨?_, ?_, ?_, ?_, ?_, ?_, h.handed_eq, ?_⟩
  · exact h.since_le.trans (by simp)
  · show c.sent ++ _ = streamBytes numberText ((published ++ [message]).drop c.since)
    rw [hdrop, h.sent_eq, streamBytes_append]
    rfl
  · exact h.read_le.trans (by simp [GossipConnection.send])
  · show c.reader = (readFrom ((c.send numberText message).sent.take c.read)).1
    rw [hsent]
    exact h.reader_eq
  · show (readFrom ((c.send numberText message).sent.take c.read)).2 = _
    rw [hsent]
    exact h.frames_eq
  · show events <+: streamEvents ((published ++ [message]).drop c.since)
    rw [hdrop]
    exact h.events_front.trans hevents
  · show earlier.Sublist (arrived ((published ++ [message]).take c.since))
    rw [htake]
    exact h.earlier_sub

theorem delivered_append (events events' : List (Option JsonValue)) :
    delivered (events ++ events') = delivered events ++ delivered events' := by
  simp [delivered]

/-- More bytes complete more of the same events. -/
theorem Streaming.more (h : Streaming numberText published handed c earlier events)
    (hplain : ∀ m ∈ published, JsonText.Plain numberText m) {chunk : List UInt8}
    (hchunk : chunk <+: c.sent.drop c.read) :
    readFrom (c.sent.take (c.read + chunk.length)) =
        ((c.reader.read chunk).1, events.map (eventText numberText) ++ (c.reader.read chunk).2) ∧
      ∃ new, (c.reader.read chunk).2 = new.map (eventText numberText) ∧
        events ++ new <+: streamEvents (published.drop c.since) := by
  have hbytes : c.sent.take (c.read + chunk.length) = c.sent.take c.read ++ chunk := by
    rw [List.take_add, ← List.prefix_iff_eq_take.mp hchunk]
  have hread : readFrom (c.sent.take (c.read + chunk.length)) =
      ((c.reader.read chunk).1, events.map (eventText numberText) ++ (c.reader.read chunk).2) := by
    rw [hbytes, readFrom_append, ← h.reader_eq, h.frames_eq]
  refine ⟨hread, ?_⟩
  have hsent : c.sent.take (c.read + chunk.length) <+: streamBytes numberText (published.drop c.since) := by
    rw [← h.sent_eq]
    exact List.take_prefix _ _
  have hfront := readFrom_front (fun m hm => hplain m (List.mem_of_mem_drop hm)) hsent
  obtain ⟨rest, hrest⟩ := h.events_front
  rw [hread, ← hrest, List.map_append] at hfront
  have hnew := List.prefix_iff_eq_take.mp ((List.prefix_append_right_inj _).mp hfront)
  rw [← List.map_take] at hnew
  refine ⟨_, hnew, ?_⟩
  rw [← hrest]
  exact (List.prefix_append_right_inj _).mpr (List.take_prefix _ _)

/-- **One step of a stream**: what is complete is handed on, up to the first message that is rejected. -/
theorem Streaming.arrive (h : Streaming numberText published handed c earlier events)
    (hplain : ∀ m ∈ published, JsonText.Plain numberText m) {chunk : List UInt8}
    (hchunk : chunk <+: c.sent.drop c.read) {handed' : List (Option JsonValue)} {ok : Bool}
    (hhandle : handleSseFrames GOSSIP_TOPIC rejects handed (c.reader.read chunk).2 = (handed', ok)) :
    handed'.Sublist (arrived published) ∧
      (ok = true → ∃ events', Streaming numberText published handed'
        { c with read := c.read + chunk.length, reader := (c.reader.read chunk).1 } earlier events') := by
  obtain ⟨hread, new, hnew, hevents⟩ := h.more hplain hchunk
  have hplainNew : ∀ e ∈ new, ∀ m ∈ e, JsonText.Plain numberText m := fun e he =>
    plain_streamEvents (fun m hm => hplain m (List.mem_of_mem_drop hm)) e
      (hevents.subset (List.mem_append_right events he))
  obtain ⟨front, hfront, hhanded, hall⟩ := handleSseFrames_events rejects hplainNew handed
  rw [← hnew, hhandle] at hhanded hall
  obtain rfl : handed' = handed ++ delivered front := hhanded
  rw [h.handed_eq, List.append_assoc, ← delivered_append]
  refine ⟨ordered_of_front h.earlier_sub ?_, ?_⟩
  · exact ((List.prefix_append_right_inj _).mpr hfront).trans hevents
  · intro hok
    obtain rfl := hall hok
    have hlength : chunk.length ≤ c.sent.length - c.read := by
      simpa using hchunk.length_le
    have hle := h.read_le
    refine ⟨events ++ front, h.since_le, h.sent_eq, ?_, ?_, ?_, hevents, rfl, h.earlier_sub⟩
    · show c.read + chunk.length ≤ c.sent.length
      omega
    · show (c.reader.read chunk).1 = (readFrom (c.sent.take (c.read + chunk.length))).1
      rw [hread]
    · show (readFrom (c.sent.take (c.read + chunk.length))).2 = _
      rw [hread, hnew, List.map_append]

/-- A stream that was just opened. -/
theorem streaming_connect (h : handed.Sublist (arrived published)) :
    Streaming numberText published handed
      { since := published.length, sent := streamBytes numberText [] } handed [] := by
  refine ⟨le_rfl, ?_, Nat.zero_le _, ?_, ?_, List.nil_prefix, ?_, ?_⟩
  · show streamBytes numberText [] = streamBytes numberText (published.drop published.length)
    rw [List.drop_length]
  · show ({} : SseReader) = (readFrom []).1
    rw [readFrom_nil]
  · show (readFrom []).2 = []
    rw [readFrom_nil]
  · exact (List.append_nil handed).symm
  · show handed.Sublist (arrived (published.take published.length))
    rwa [List.take_length]

theorem GossipState.Inv.step (h : st.Inv numberText) {event : GossipEvent}
    (hplain : ∀ m, event = .publish m → JsonText.Plain numberText m) :
    (st.step numberText GOSSIP_TOPIC rejects event).Inv numberText := by
  cases event with
  | publish message =>
      have hordered : st.handed.Sublist (arrived (st.published ++ [message])) := by
        rw [arrived_append]
        exact h.ordered.trans (List.sublist_append_left _ _)
      refine ⟨?_, hordered, ?_⟩
      · show ∀ m ∈ st.published ++ [message], JsonText.Plain numberText m
        simpa [or_imp, forall_and] using ⟨h.plain, hplain message rfl⟩
      · intro c hc
        obtain ⟨c', hc', rfl⟩ := Option.map_eq_some_iff.mp hc
        obtain ⟨earlier, events, hstream⟩ := h.streaming c' hc'
        exact ⟨earlier, events, hstream.send message⟩
  | connect =>
      unfold GossipState.step
      rcases hconnection : st.connection with - | c
      · refine ⟨h.plain, h.ordered, ?_⟩
        intro c hc
        obtain rfl := Option.some.inj hc
        exact ⟨st.handed, [], streaming_connect h.ordered⟩
      · exact h
  | arrive count =>
      unfold GossipState.step
      rcases hconnection : st.connection with - | c
      · exact h
      · obtain ⟨earlier, events, hstream⟩ := h.streaming c hconnection
        have hchunk : (c.sent.drop c.read).take count <+: c.sent.drop c.read := List.take_prefix _ _
        rcases hhandle : handleSseFrames GOSSIP_TOPIC rejects st.handed
          (c.reader.read ((c.sent.drop c.read).take count)).2 with ⟨handed, - | -⟩
        · simp only [hhandle]
          refine ⟨h.plain, (hstream.arrive h.plain hchunk hhandle).1, ?_⟩
          intro c hc
          cases hc
        · simp only [hhandle]
          obtain ⟨hordered, hopen⟩ := hstream.arrive h.plain hchunk hhandle
          refine ⟨h.plain, hordered, ?_⟩
          intro c' hc
          obtain rfl := Option.some.inj hc
          exact ⟨earlier, hopen rfl⟩
  | close =>
      refine ⟨h.plain, h.ordered, ?_⟩
      intro c hc
      cases hc

/-- An event was read as soon as the bytes up to its end had arrived. -/
theorem Streaming.exact (h : Streaming numberText published handed c earlier events)
    (hplain : ∀ m ∈ published, JsonText.Plain numberText m) {i : ℕ}
    (hi : i < (published.drop c.since).length) :
    i < events.length - 1 ↔ bytesUpTo numberText (published.drop c.since) i ≤ c.read := by
  have hplainTake : ∀ m ∈ (published.drop c.since).take (i + 1), JsonText.Plain numberText m :=
    fun m hm => hplain m (List.mem_of_mem_drop (List.mem_of_mem_take hm))
  have htake : streamEvents ((published.drop c.since).take (i + 1)) =
      (streamEvents (published.drop c.since)).take (i + 2) := by
    simp [streamEvents, List.map_take]
  have hlength : (streamEvents ((published.drop c.since).take (i + 1))).length = i + 2 := by
    rw [streamEvents, List.length_cons, List.length_map, List.length_take]
    omega
  have hframes : ∀ frame ∈ (streamEvents ((published.drop c.since).take (i + 1))).map (eventText numberText),
      '\n' ∉ frame := by
    intro frame hframe
    obtain ⟨event, hevent, rfl⟩ := List.mem_map.mp hframe
    exact not_mem_eventText (plain_streamEvents hplainTake event hevent)
  have hsent : c.sent.take c.read <+: streamBytes numberText (published.drop c.since) := by
    rw [← h.sent_eq]
    exact List.take_prefix _ _
  -- both are fronts of the same events, and of the same bytes
  have hevents : (streamEvents ((published.drop c.since).take (i + 1))).map (eventText numberText) <+:
      events.map (eventText numberText) ↔ i < events.length - 1 := by
    constructor
    · intro hfront
      have hle := hfront.length_le
      rw [List.length_map, List.length_map] at hle
      omega
    · intro hlt
      rw [htake, List.prefix_iff_eq_take.mp h.events_front]
      exact (List.take_prefix_take_left (by omega)).map _
  have hbytes : streamBytes numberText ((published.drop c.since).take (i + 1)) <+: c.sent.take c.read ↔
      bytesUpTo numberText (published.drop c.since) i ≤ c.read := by
    have hfront : streamBytes numberText ((published.drop c.since).take (i + 1)) <+: c.sent := by
      rw [h.sent_eq]
      conv_rhs => rw [← List.take_append_drop (i + 1) (published.drop c.since), streamBytes_append]
      exact List.prefix_append _ _
    rw [List.prefix_take_iff]
    exact and_iff_right hfront
  rw [← hevents, ← h.frames_eq, prefix_readFrom_iff hsent hframes]
  exact hbytes

theorem GossipState.Inv.inOrder (h : st.Inv numberText) : InOrder numberText st := by
  refine ⟨h.ordered, ?_⟩
  intro c hc
  obtain ⟨earlier, events, hstream⟩ := h.streaming c hc
  refine ⟨earlier, events.length - 1, hstream.sent_eq, ?_, hstream.earlier_sub, ?_⟩
  · rw [hstream.handed_eq, delivered_front hstream.events_front]
  · intro i hi
    exact hstream.exact h.plain hi

/-- **What a node hands on is in the order of the hub, without anything twice, and on an open stream it is
all that has arrived.** -/
theorem gossip_in_order (numberText : ℚ → List Char) (rejects : ℕ → Bool) (events : List GossipEvent)
    (hplain : ∀ m, GossipEvent.publish m ∈ events → JsonText.Plain numberText m) :
    InOrder numberText ((gossipMachine numberText GOSSIP_TOPIC rejects).final {} events) := by
  have hinv : ((gossipMachine numberText GOSSIP_TOPIC rejects).final {} events).Inv numberText := by
    induction events using List.reverseRecOn with
    | nil =>
        refine ⟨List.forall_mem_nil _, List.Sublist.refl _, ?_⟩
        intro c hc
        cases hc
    | append_singleton events event ih =>
        rw [Machine.final_snoc]
        refine (ih fun m hm => hplain m (List.mem_append_left _ hm)).step ?_
        rintro m rfl
        exact hplain m (List.mem_append_right _ (List.mem_singleton.mpr rfl))
  exact hinv.inOrder

def sampleMessage (kind : String) : JsonValue :=
  .object [(JsonValue.units "t", .string (JsonValue.units kind)), (JsonValue.units "v", .count 1)]

theorem plain_sampleMessage (kind : String) : JsonText.Plain (fun _ => ['1']) (sampleMessage kind) := by
  have hround : Double.round (((1 : ℕ) : ℚ) * 10 ^ ((0 : ℤ) - (0 : ℕ))) = .finite ((1 : ℕ) : ℚ) := by
    rw [Nat.cast_zero, sub_zero, zpow_zero, mul_one]
    exact Double.round_natCast (by decide)
  have hone : JsonText.IsNumberText ['1'] ((1 : ℕ) : ℚ) :=
    ⟨'1', [], rfl, .inr rfl, List.forall_mem_nil _, congrArg some hround⟩
  have hnames : JsonValue.units "t" ≠ JsonValue.units "v" := by simp [JsonValue.units_inj]
  refine .object ?_ ?_
  · simp [Dict.Distinct, hnames]
  · simp only [List.forall_mem_cons]
    exact ⟨.string _, .finite hone, List.forall_mem_nil _⟩

/-- The first stream ends inside a message. -/
theorem gossip_in_order_two : InOrder (fun _ => ['1'])
    ((gossipMachine (fun _ => ['1']) GOSSIP_TOPIC fun _ => false).final {}
      [.connect, .publish (sampleMessage "advert"), .arrive 40, .close, .connect, .publish (sampleMessage "bid"),
        .arrive 300]) := by
  apply gossip_in_order
  intro m hm
  simp only [List.mem_cons, List.not_mem_nil, GossipEvent.publish.injEq, reduceCtorEq, false_or,
    or_false] at hm
  rcases hm with rfl | rfl
  · exact plain_sampleMessage _
  · exact plain_sampleMessage _

end System

end OpaqueStellar.Relayer
