/-
**A captured line is a slower line.**

What does the owner of a capturing layer notice of it?  He makes the same calls as on the bare
transport, but his reads take the bytes from a channel, into which a task has put them; so he gets
them later, and in other pieces.  This module shows that this is all.  For every run of a layer that
drops nothing there is a run of a bare transport with the same calls and the same answers, on which
no byte comes in earlier than on the captured one, and no error that the captured one did not have;
only that the end of the stream is an error there, and that reads behind an end find that the
background reader has ended.

So whatever a client does right on every transport, however slow, it does right with a tap.

Main definitions:

* `OmsModbus.Capture.behind` — what the bare transport does meanwhile;
* `OmsModbus.Capture.Mimics` — a run of the bare transport that cannot be told from a captured one;
* `OmsModbus.Capture.Settled` — all that has come in is with the owner.

Main results:

* `OmsModbus.Capture.Follows.step` — one operation;
* `OmsModbus.Capture.captured_mimicked` — **a captured line is a slower line**.
-/

import OmsModbus.StreamEnd

set_option relaxedAutoImplicit false
set_option autoImplicit false

namespace OmsModbus.Capture

/-! ### Calls and arrivals -/

/-- The call of an owner that an operation is, if it is one. -/
def IoOp.call {β : Type} : IoOp β → Option (IoOp Empty)
  | .task _ => none
  | .pollRead buf => some (.pollRead buf)
  | .pollWrite bs => some (.pollWrite bs)

/-- The calls of the owner. -/
def ownerCalls {β : Type} (ops : List (IoOp β)) : List (IoOp Empty) := ops.filterMap IoOp.call

/-- What arrives at a bare transport in the course of a run. -/
def rawArrivals (ops : List (IoOp RawEvent)) : List (Except IoError Bytes) :=
  ops.flatMap fun
    | .task (.arrive answer) => [answer]
    | _ => []

/-- The bytes of some answers. -/
def bytesOf (answers : List (Except IoError Bytes)) : Bytes :=
  answers.flatMap fun
    | .ok bs => bs
    | .error _ => []

section Lists

variable {β : Type} (ops ops' : List (IoOp β)) (bare bare' : List (IoOp RawEvent))
  (answers answers' : List (Except IoError Bytes)) (answer : Except IoError Bytes)

@[simp] theorem ownerCalls_append : ownerCalls (ops ++ ops') = ownerCalls ops ++ ownerCalls ops' :=
  List.filterMap_append

@[simp] theorem rawArrivals_append :
    rawArrivals (bare ++ bare') = rawArrivals bare ++ rawArrivals bare' := List.flatMap_append

@[simp] theorem bytesOf_append :
    bytesOf (answers ++ answers') = bytesOf answers ++ bytesOf answers' := List.flatMap_append

@[simp] theorem bytesOf_ok (bs : Bytes) : bytesOf [.ok bs] = bs := List.append_nil bs

theorem bytesOf_cons : bytesOf (answer :: answers) = bytesOf [answer] ++ bytesOf answers :=
  bytesOf_append [answer] answers

end Lists

/-! ### The transport under a layer -/

/-- The transport under a layer. -/
def SniffIo.bottom {τ : Type} (io : SniffIo τ) : τ :=
  match io.state with
  | .passthrough inner => inner
  | .sniffing s => s.inner

theorem SniffIo.bottom_sniffing {τ : Type} {io : SniffIo τ} {s : Sniffing τ}
    (h : io.state = .sniffing s) : io.bottom = s.inner := by
  rw [bottom, h]

theorem SniffIo.dataDroppedBytes_sniffing {τ : Type} {io : SniffIo τ} {s : Sniffing τ}
    (h : io.state = .sniffing s) : io.dataDroppedBytes = s.dataChannel.droppedBytes := by
  rw [dataDroppedBytes, h]

/-- A write goes by the answers that are ready. -/
theorem RawTransport.pollWrite_congr (raw : RawTransport) {raw' : RawTransport}
    (haccepting : raw.accepting = raw'.accepting) (hwritten : raw.written = raw'.written)
    (bs : Bytes) :
    (raw.pollWrite bs).io.accepting = (raw'.pollWrite bs).io.accepting ∧
      (raw.pollWrite bs).io.written = (raw'.pollWrite bs).io.written := by
  simp only [RawTransport.pollWrite, haccepting]
  cases raw'.accepting with
  | nil => exact ⟨haccepting, hwritten⟩
  | cons answer accepting =>
      cases answer with
      | error e => exact ⟨rfl, hwritten⟩
      | ok n => exact ⟨rfl, by rw [hwritten]⟩

/-- What a read leaves of an answer stays to come. -/
theorem RawTransport.taken_bytes (raw : RawTransport) (part left : Bytes)
    (incoming : List (Except IoError Bytes)) :
    (raw.taken part left incoming).read = raw.read ++ part ∧
      bytesOf (raw.taken part left incoming).incoming = left ++ bytesOf incoming := by
  refine ⟨rfl, ?_⟩
  rw [taken]
  split
  · next h => rw [h, List.nil_append]
  · rw [bytesOf_cons, bytesOf_ok]

/-! ### What the operations on a layer do -/

/-- The error of a read behind an end. -/
def READER_TERMINATED : IoError := ⟨.brokenPipe, "background reader terminated"⟩

/-- What a read of a layer may bring: nothing yet, the error in the data channel, word that the
background reader has ended, or as many bytes as there is room for. -/
inductive Brings (s : Sniffing RawTransport) (buf : ReadBuf) : List ReadEvent → Prop
  | nothing : Brings s buf []
  | error (e : IoError) (h : s.dataChannel.error = some e) : Brings s buf [.error e]
  | terminated : Brings s buf [.error READER_TERMINATED]
  | data (part : Bytes) (hne : part ≠ []) (hroom : part.length ≤ buf.remaining) :
      Brings s buf [.data part]

/-- What is handed out fits in the buffer. -/
theorem Sniffing.deliver_brings (s : Sniffing RawTransport) {data : Bytes} (hdata : data ≠ [])
    {buf : ReadBuf} (hroom : 0 < buf.remaining) :
    Brings s buf [.data ((s.deliver data buf).1.filled.drop buf.filled.length)] := by
  have hpos := List.length_pos_iff.2 hdata
  have hpart : (s.deliver data buf).1.filled.drop buf.filled.length
      = data.take (min data.length buf.remaining) := List.drop_left
  rw [hpart]
  refine .data _ ?_ ?_
  · rw [← List.length_pos_iff, List.length_take]
    omega
  · rw [List.length_take]
    omega

section Operations

variable {dataCapacity tapCapacity : ℕ} {s : Sniffing RawTransport} {effects : List Effect}
  {seen : List ReadEvent} {sent received : List Bytes}

/-- A read of a layer takes from its data channel, and no more than there is room for. -/
theorem Books.pollRead_cases {io : SniffIo RawTransport}
    (h : Books dataCapacity tapCapacity s effects seen sent received)
    (hstate : io.state = .sniffing s) {buf : ReadBuf} (hroom : 0 < buf.remaining) :
    ∃ s', (io.pollRead buf).io = { io with state := .sniffing s' } ∧ s'.inner = s.inner ∧
      s'.dataChannel.droppedBytes = s.dataChannel.droppedBytes ∧
      (∀ e, s'.dataChannel.error = some e → s.dataChannel.error = some e) ∧
      Brings s buf (IoRun.seenBy buf (io.pollRead buf).result (io.pollRead buf).buf) := by
  simp only [SniffIo.pollRead, hstate]
  cases hleft : s.pending with
  | some left =>
      exact ⟨_, rfl, rfl, rfl, fun _ => id, s.deliver_brings (h.leftover left hleft) hroom⟩
  | none =>
      simp only [Sniffing.pollChannel]
      rcases s.dataChannel.pollRecv_cases with ⟨data, queue, hq, hpoll⟩ | ⟨-, e, he, hpoll⟩ |
        ⟨-, -, hclosed, -⟩ | ⟨-, -, -, hpoll⟩
      · have hdata : data ≠ [] := h.queued_ne_nil data (by rw [hq]; exact List.mem_cons_self ..)
        rw [hpoll]
        exact ⟨_, rfl, rfl, rfl, fun _ => id, s.deliver_brings hdata hroom⟩
      · rw [hpoll]
        exact ⟨_, rfl, rfl, rfl, fun _ h => (by cases h), .error e he⟩
      · rw [h.dataOpen] at hclosed
        cases hclosed
      · rw [hpoll]
        simp only
        split
        · exact ⟨_, rfl, rfl, rfl, fun _ => id, .terminated⟩
        · exact ⟨_, rfl, rfl, rfl, fun _ => id, .nothing⟩

end Operations

/-! ### Nothing comes from nowhere -/

/-- An end that the answers of a transport have brought, as it is read from a data channel. -/
def Ended (answers : List (Except IoError Bytes)) (e : IoError) : Prop :=
  .error e ∈ answers ∨ .ok [] ∈ answers ∧ e = ⟨.unexpectedEof, "transport closed"⟩

theorem Ended.append {answers : List (Except IoError Bytes)} {e : IoError} (h : Ended answers e)
    (more : List (Except IoError Bytes)) : Ended (answers ++ more) e :=
  h.imp (List.mem_append_left more) fun ⟨hmem, he⟩ => ⟨List.mem_append_left more hmem, he⟩

/-- Where a layer has what it has: the bytes that were read and those that are to come have arrived,
and so have the ends that are to come, that are in the data channel, and that the owner was told.
The end of the stream is none of these for him. -/
structure Founded (answers : List (Except IoError Bytes)) (s : Sniffing RawTransport)
    (seen : List ReadEvent) : Prop where
  bytes : s.inner.read ++ bytesOf s.inner.incoming = bytesOf answers
  coming : ∀ answer ∈ s.inner.incoming, answer ∈ answers ∨ ∃ bs, bs ≠ [] ∧ answer = .ok bs
  known : ∀ e, s.dataChannel.error = some e → Ended answers e
  told : ∀ e, .error e ∈ seen → Ended answers e ∨ e = READER_TERMINATED
  full : .data [] ∉ seen

namespace Founded

variable {answers : List (Except IoError Bytes)} {s s' : Sniffing RawTransport}
  {seen : List ReadEvent}

theorem congr (h : Founded answers s seen) (hincoming : s'.inner.incoming = s.inner.incoming)
    (hread : s'.inner.read = s.inner.read)
    (herror : ∀ e, s'.dataChannel.error = some e → s.dataChannel.error = some e) :
    Founded answers s' seen where
  bytes := by rw [hincoming, hread, h.bytes]
  coming := by rw [hincoming]; exact h.coming
  known := by
    intro e he
    exact h.known e (herror e he)
  told := h.told
  full := h.full

/-- Nothing arrives in the course of an operation. -/
theorem quiet (h : Founded answers s seen) {op : IoOp (SniffIo.Task RawEvent)}
    (hop : arrival op = []) : Founded (answers ++ arrival op) s seen := by
  rw [hop, List.append_nil]
  exact h

/-- An answer arrives. -/
theorem arrive (h : Founded answers s seen) (answer : Except IoError Bytes) :
    Founded (answers ++ [answer])
      { s with inner := (s.inner.runTask (.arrive answer)).1 } seen where
  bytes := by
    rw [bytesOf_append, ← h.bytes, List.append_assoc, ← bytesOf_append]
    rfl
  coming := by
    intro a ha
    rcases List.mem_append.1 ha with ha | ha
    · exact (h.coming a ha).imp_left (List.mem_append_left _)
    · exact .inl (List.mem_append_right _ ha)
  known := by
    intro e he
    exact (h.known e he).append _
  told := by
    intro e he
    refine (h.told e he).imp_left ?_
    intro hended
    exact hended.append _
  full := h.full

/-- The background reader takes the next answer. -/
theorem activeReader (h : Founded answers s seen) (spare : ℕ) :
    Founded answers (s.activeReader spare).1 seen := by
  have hcoming : ∀ {answer incoming}, s.inner.incoming = answer :: incoming →
      ∀ a ∈ incoming, a ∈ answers ∨ ∃ bs, bs ≠ [] ∧ a = .ok bs := by
    intro answer incoming hin a ha
    refine h.coming a ?_
    rw [hin]
    exact List.mem_cons_of_mem _ ha
  have hbytes := h.bytes
  rcases s.activeReader_cases spare with heq | ⟨-, e, incoming, hin, heq⟩ |
    ⟨-, incoming, hin, heq⟩ | ⟨-, part, left, incoming, hne, hin, heq⟩
  · rw [heq]
    exact h
  · -- an error goes into the data channel; it is none of the pieces that reads have left
    rw [heq]
    have hmem := h.coming (.error e) (by rw [hin]; exact List.mem_cons_self ..)
    refine ⟨?_, hcoming hin, ?_, h.told, h.full⟩
    · rw [hin, bytesOf_cons] at hbytes
      exact hbytes
    · rintro e' ⟨⟩
      refine .inl (hmem.resolve_right ?_)
      rintro ⟨bs, -, ⟨⟩⟩
  · -- and so does the end of the stream
    rw [heq]
    have hmem := h.coming (.ok []) (by rw [hin]; exact List.mem_cons_self ..)
    refine ⟨?_, hcoming hin, ?_, h.told, h.full⟩
    · rw [hin, bytesOf_cons] at hbytes
      simp only [RawTransport.taken, List.append_nil, if_true]
      exact hbytes
    · rintro e' ⟨⟩
      refine .inr ⟨hmem.resolve_right ?_, rfl⟩
      rintro ⟨bs, hbs, heq⟩
      exact hbs (Except.ok.inj heq).symm
  · rw [heq]
    obtain ⟨hread, hleft⟩ := s.inner.taken_bytes part left incoming
    refine ⟨?_, ?_, ?_, h.told, h.full⟩
    · rw [hread, hleft, ← hbytes, hin, bytesOf_cons, bytesOf_ok]
      simp only [List.append_assoc]
    · intro a ha
      simp only [RawTransport.taken] at ha
      split at ha
      · exact hcoming hin a ha
      · next hne =>
        rcases List.mem_cons.1 ha with rfl | ha
        · exact .inr ⟨left, hne, rfl⟩
        · exact hcoming hin a ha
    · intro e he
      rw [SniffChannel.send_error] at he
      exact h.known e he

/-- The owner reads. -/
theorem brings (h : Founded answers s seen) {buf : ReadBuf} {events : List ReadEvent}
    (hevents : Brings s buf events) : Founded answers s (seen ++ events) := by
  refine { h with told := ?_, full := ?_ }
  · intro e he
    rcases List.mem_append.1 he with he | he
    · exact h.told e he
    · cases hevents with
      | nothing => cases he
      | error e' h' =>
          cases List.mem_singleton.1 he
          exact .inl (h.known e h')
      | terminated =>
          cases List.mem_singleton.1 he
          exact .inr rfl
      | data part => cases List.mem_singleton.1 he
  · intro hnil
    rcases List.mem_append.1 hnil with hnil | hnil
    · exact h.full hnil
    · cases hevents with
      | nothing => cases hnil
      | error e' h' => cases List.mem_singleton.1 hnil
      | terminated => cases List.mem_singleton.1 hnil
      | data part hne => exact hne (ReadEvent.data.inj (List.mem_singleton.1 hnil)).symm

end Founded

/-! ### What is dropped stays dropped -/

theorem Sniffing.activeReader_dropped (s : Sniffing RawTransport) (spare : ℕ) :
    s.dataChannel.droppedBytes ≤ (s.activeReader spare).1.dataChannel.droppedBytes := by
  rcases s.activeReader_cases spare with heq | ⟨-, e, incoming, -, heq⟩ | ⟨-, incoming, -, heq⟩ |
    ⟨-, part, left, incoming, -, -, heq⟩
  · rw [heq]
  · rw [heq]
    exact Nat.le_refl _
  · rw [heq]
    exact Nat.le_refl _
  · rw [heq]
    exact s.dataChannel.droppedBytes_le_send part

theorem Sniffing.tapForwarder_frame {τ : Type} (s : Sniffing τ) :
    ∃ tapChannel tapFinished, s.tapForwarder.1
      = { s with tapChannel := tapChannel, tapFinished := tapFinished } := by
  rw [tapForwarder]
  split
  · exact ⟨_, _, rfl⟩
  · split <;> exact ⟨_, _, rfl⟩

/-! ### The bare transport -/

/-- What an owner reads, as an answer of a transport. -/
def answerOf : ReadEvent → Option (Except IoError Bytes)
  | .data bs => some (.ok bs)
  | .error e => some (.error e)
  | .elapsed | .expired => none

/-- What an operation on a layer brings its owner. -/
def IoRun.brings (r : IoRun (SniffIo RawTransport)) :
    IoOp (SniffIo.Task RawEvent) → List ReadEvent
  | .pollRead buf =>
      let p := r.io.pollRead buf
      seenBy buf p.result p.buf
  | _ => []

/-- What the bare transport does in place of an operation on a layer: the calls are the same, and so
are the answers to the writes; the tasks of the layer are not there. -/
def IoOp.bare : IoOp (SniffIo.Task RawEvent) → List (IoOp RawEvent)
  | .task (.inner (.accept answer)) => [.task (.accept answer)]
  | .task _ => []
  | .pollRead buf => [.pollRead buf]
  | .pollWrite bs => [.pollWrite bs]

/-- An operation on the bare transport, before which there arrives what the one on the layer
brings. -/
def behindOp (r : IoRun (SniffIo RawTransport)) (op : IoOp (SniffIo.Task RawEvent)) :
    List (IoOp RawEvent) :=
  ((r.brings op).filterMap answerOf).map (fun answer => .task (.arrive answer)) ++ op.bare

/-- **What the bare transport does meanwhile.** -/
def behind (r : IoRun (SniffIo RawTransport)) :
    List (IoOp (SniffIo.Task RawEvent)) → List (IoOp RawEvent)
  | [] => []
  | op :: ops => behindOp r op ++ behind (r.step op) ops

theorem behind_append (r : IoRun (SniffIo RawTransport))
    (ops ops' : List (IoOp (SniffIo.Task RawEvent))) :
    behind r (ops ++ ops') = behind r ops ++ behind (r.run ops) ops' := by
  induction ops generalizing r with
  | nil => rfl
  | cons op ops ih =>
      rw [List.cons_append, behind, behind, ih, List.append_assoc]
      rfl

theorem IoRun.step_seen (r : IoRun (SniffIo RawTransport)) (op : IoOp (SniffIo.Task RawEvent)) :
    (r.step op).seen = r.seen ++ r.brings op := by
  cases op with
  | task task => exact (List.append_nil _).symm
  | pollRead buf => rfl
  | pollWrite bs => exact (List.append_nil _).symm

theorem ownerCalls_behindOp (r : IoRun (SniffIo RawTransport))
    (op : IoOp (SniffIo.Task RawEvent)) :
    ownerCalls (behindOp r op) = ownerCalls [op] := by
  have harrive : ∀ answers : List (Except IoError Bytes),
      ownerCalls (answers.map fun answer => (.task (.arrive answer) : IoOp RawEvent)) = [] := by
    intro answers
    rw [ownerCalls, List.filterMap_eq_nil_iff]
    intro op hop
    obtain ⟨answer, -, rfl⟩ := List.mem_map.1 hop
    rfl
  rw [behindOp, ownerCalls_append, harrive, List.nil_append]
  match op with
  | .task (.inner (.accept answer)) => rfl
  | .task (.inner (.arrive answer)) => rfl
  | .task (.activeReader spare) => rfl
  | .task .tapForwarder => rfl
  | .pollRead buf => rfl
  | .pollWrite bs => rfl

theorem rawArrivals_behindOp (r : IoRun (SniffIo RawTransport))
    (op : IoOp (SniffIo.Task RawEvent)) :
    rawArrivals (behindOp r op) = (r.brings op).filterMap answerOf := by
  have harrive : ∀ answers : List (Except IoError Bytes),
      rawArrivals (answers.map fun answer => (.task (.arrive answer) : IoOp RawEvent))
        = answers := by
    intro answers
    induction answers with
    | nil => rfl
    | cons answer answers ih => exact congrArg (answer :: ·) ih
  have hbare : rawArrivals op.bare = [] := by
    match op with
    | .task (.inner (.accept answer)) => rfl
    | .task (.inner (.arrive answer)) => rfl
    | .task (.activeReader spare) => rfl
    | .task .tapForwarder => rfl
    | .pollRead buf => rfl
    | .pollWrite bs => rfl
  rw [behindOp, rawArrivals_append, harrive, hbare, List.append_nil]

/-- The bare transport is asked the same, and all that arrives at it is what its owner reads. -/
theorem behind_eq (r : IoRun (SniffIo RawTransport))
    (ops : List (IoOp (SniffIo.Task RawEvent))) :
    ownerCalls (behind r ops) = ownerCalls ops ∧
      ∃ events, (r.run ops).seen = r.seen ++ events ∧
        rawArrivals (behind r ops) = events.filterMap answerOf := by
  induction ops generalizing r with
  | nil => exact ⟨rfl, [], (List.append_nil _).symm, rfl⟩
  | cons op ops ih =>
      obtain ⟨hcalls, events, hseen, harrivals⟩ := ih (r.step op)
      refine ⟨?_, r.brings op ++ events, ?_, ?_⟩
      · rw [behind, ownerCalls_append, ownerCalls_behindOp, hcalls, ← ownerCalls_append]
        rfl
      · rw [← List.append_assoc, ← r.step_seen]
        exact hseen
      · rw [behind, rawArrivals_append, rawArrivals_behindOp, harrivals, List.filterMap_append]

theorem bytesOf_answers (events : List ReadEvent) :
    bytesOf (events.filterMap answerOf) = OmsModbus.pending events := by
  induction events with
  | nil => rfl
  | cons event events ih =>
      cases event with
      | data bs =>
          change bytesOf (.ok bs :: events.filterMap answerOf) = bs ++ OmsModbus.pending events
          rw [bytesOf_cons, bytesOf_ok, ih]
      | error e => exact ih
      | elapsed => exact ih
      | expired => exact ih

/-! ### One operation -/

/-- A read of a bare transport at which what it is to bring has arrived just before. -/
theorem IoRun.run_read {b : IoRun RawTransport} (hidle : b.io.incoming = [])
    {s : Sniffing RawTransport} {buf : ReadBuf} {events : List ReadEvent}
    (h : Brings s buf events) :
    let b' := b.run ((events.filterMap answerOf).map (fun answer => .task (.arrive answer))
      ++ [.pollRead buf])
    b'.io.incoming = [] ∧ b'.seen = b.seen ++ events ∧ b'.io.accepting = b.io.accepting ∧
      b'.io.written = b.io.written := by
  obtain ⟨⟨incoming, accepting, read, written⟩, effects, seen⟩ := b
  obtain rfl : incoming = [] := hidle
  cases h with
  | nothing => exact ⟨rfl, rfl, rfl, rfl⟩
  | error e => exact ⟨rfl, rfl, rfl, rfl⟩
  | terminated => exact ⟨rfl, rfl, rfl, rfl⟩
  | data part hne hroom =>
      have hpoll : RawTransport.pollRead ⟨[.ok part], accepting, read, written⟩ buf
          = ⟨.ready (.ok ()), buf.putSlice part, ⟨[], accepting, read ++ part, written⟩, []⟩ := by
        simp only [RawTransport.pollRead, List.take_of_length_le hroom,
          List.drop_of_length_le hroom, RawTransport.taken, if_true]
      change (let p := RawTransport.pollRead ⟨[.ok part], accepting, read, written⟩ buf
        p.io.incoming = [] ∧ seen ++ seenBy buf p.result p.buf = seen ++ [.data part] ∧
          p.io.accepting = accepting ∧ p.io.written = written)
      rw [hpoll]
      refine ⟨rfl, ?_, rfl, rfl⟩
      simp only [seenBy, ReadBuf.putSlice, List.drop_left]

/-- The bare transport `b` has followed the layer `r`, at whose transport `answers` have arrived:
its owner has read the same, it has taken the same and will take the same, and nothing waits in
it. -/
structure Follows (answers : List (Except IoError Bytes)) (dataCapacity tapCapacity : ℕ)
    (r : IoRun (SniffIo RawTransport)) (b : IoRun RawTransport) : Prop where
  balances : r.Balances dataCapacity tapCapacity
  founded : ∀ s, r.io.state = .sniffing s → Founded answers s r.seen
  idle : b.io.incoming = []
  seen : b.seen = r.seen
  accepting : b.io.accepting = r.io.bottom.accepting
  written : b.io.written = r.io.bottom.written

/-- How things are after one operation: the bare transport has followed, and what is dropped stays
dropped. -/
structure Next (answers : List (Except IoError Bytes)) (dataCapacity tapCapacity : ℕ)
    (r : IoRun (SniffIo RawTransport)) (b : IoRun RawTransport)
    (op : IoOp (SniffIo.Task RawEvent)) : Prop where
  follows : Follows (answers ++ arrival op) dataCapacity tapCapacity (r.step op)
    (b.run (behindOp r op))
  dropped : r.io.dataDroppedBytes ≤ (r.step op).io.dataDroppedBytes

/-- A capturing layer that was just built. -/
def tapped (timing : Bool) (bufSize dataCapacity tapCapacity : ℕ) : IoRun (SniffIo RawTransport) :=
  .start (.startSniffing .new timing bufSize dataCapacity tapCapacity)

namespace Follows

variable {answers : List (Except IoError Bytes)} {dataCapacity tapCapacity : ℕ}
  {r : IoRun (SniffIo RawTransport)} {b : IoRun RawTransport}

/-- A layer that was just built, and a transport that was just opened. -/
theorem start (timing : Bool) (bufSize dataCapacity tapCapacity : ℕ) :
    Follows [] dataCapacity tapCapacity (tapped timing bufSize dataCapacity tapCapacity)
      (.start .new) where
  balances := IoRun.balances_start timing bufSize dataCapacity tapCapacity
  founded := by
    rintro s ⟨⟩
    refine ⟨rfl, ?_, ?_, ?_, List.not_mem_nil⟩
    · intro answer hanswer
      cases hanswer
    · intro e he
      cases he
    · intro e he
      cases he
  idle := rfl
  seen := rfl
  accepting := rfl
  written := rfl

/-- The layer captures, and its books are in order. -/
theorem sniffing (h : Follows answers dataCapacity tapCapacity r b) :
    ∃ s sent received, r.io.state = .sniffing s ∧
      Books dataCapacity tapCapacity s r.effects r.seen sent received ∧
      Founded answers s r.seen ∧ r.io.bottom = s.inner ∧
      r.io.dataDroppedBytes = s.dataChannel.droppedBytes := by
  obtain ⟨-, s, sent, received, hstate, hbooks⟩ := id h.balances
  exact ⟨s, sent, received, hstate, hbooks, h.founded s hstate, SniffIo.bottom_sniffing hstate,
    SniffIo.dataDroppedBytes_sniffing hstate⟩

/-- The bare transport has nothing to do while a task of the layer takes its turn. -/
theorem task (h : Follows answers dataCapacity tapCapacity r b) {t : SniffIo.Task RawEvent}
    {s s' : Sniffing RawTransport} (hstate : r.io.state = .sniffing s)
    (hstate' : (r.step (.task t)).io.state = .sniffing s')
    (hfounded : Founded (answers ++ arrival (.task t)) s' r.seen)
    (haccepting : s'.inner.accepting = s.inner.accepting)
    (hwritten : s'.inner.written = s.inner.written)
    (hdropped : s.dataChannel.droppedBytes ≤ s'.dataChannel.droppedBytes) :
    Follows (answers ++ arrival (.task t)) dataCapacity tapCapacity (r.step (.task t)) b ∧
      r.io.dataDroppedBytes ≤ (r.step (.task t)).io.dataDroppedBytes := by
  have hbottom := SniffIo.bottom_sniffing hstate
  refine ⟨⟨h.balances.step _, ?_, h.idle, h.seen, ?_, ?_⟩, ?_⟩
  · intro s'' hs''
    rw [hstate'] at hs''
    cases hs''
    exact hfounded
  · rw [SniffIo.bottom_sniffing hstate', haccepting, h.accepting, hbottom]
  · rw [SniffIo.bottom_sniffing hstate', hwritten, h.written, hbottom]
  · rw [SniffIo.dataDroppedBytes_sniffing hstate, SniffIo.dataDroppedBytes_sniffing hstate']
    exact hdropped

/-- An answer arrives.  It waits at the layer, and on the bare transport nothing has come yet. -/
theorem arrive (h : Follows answers dataCapacity tapCapacity r b)
    (answer : Except IoError Bytes) :
    Next answers dataCapacity tapCapacity r b (.task (.inner (.arrive answer))) := by
  obtain ⟨s, -, -, hstate, -, hf, -, -⟩ := h.sniffing
  have hstate' : (r.step (.task (SniffIo.Task.inner (.arrive answer)))).io.state
      = .sniffing { s with inner := (s.inner.runTask (.arrive answer)).1 } := by
    simp only [IoRun.step, AsyncIo.runTask, SniffIo.runTask, hstate]
  obtain ⟨hfollows, hdropped⟩ :=
    h.task hstate hstate' (hf.arrive answer) rfl rfl (Nat.le_refl _)
  exact ⟨hfollows, hdropped⟩

/-- An answer to a write is made ready, on both transports. -/
theorem accept (h : Follows answers dataCapacity tapCapacity r b) (answer : Except IoError ℕ) :
    Next answers dataCapacity tapCapacity r b (.task (.inner (.accept answer))) := by
  obtain ⟨s, -, -, hstate, -, hf, hbottom, hdropped⟩ := h.sniffing
  have hstate' : (r.step (.task (SniffIo.Task.inner (.accept answer)))).io.state
      = .sniffing { s with inner := (s.inner.runTask (.accept answer)).1 } := by
    simp only [IoRun.step, AsyncIo.runTask, SniffIo.runTask, hstate]
  refine ⟨⟨h.balances.step _, ?_, h.idle, h.seen, ?_, ?_⟩, ?_⟩
  · intro s' hs'
    rw [hstate'] at hs'
    cases hs'
    refine Founded.quiet ?_ rfl
    exact hf.congr rfl rfl fun _ => id
  · rw [SniffIo.bottom_sniffing hstate']
    change b.io.accepting ++ [answer] = s.inner.accepting ++ [answer]
    rw [h.accepting, hbottom]
  · rw [SniffIo.bottom_sniffing hstate']
    change b.io.written = s.inner.written
    rw [h.written, hbottom]
  · rw [hdropped, SniffIo.dataDroppedBytes_sniffing hstate']

/-- The background reader takes its turn. -/
theorem activeReader (h : Follows answers dataCapacity tapCapacity r b) (spare : ℕ) :
    Next answers dataCapacity tapCapacity r b (.task (.activeReader spare)) := by
  obtain ⟨s, -, -, hstate, -, hf, -, -⟩ := h.sniffing
  have hstate' : (r.step (.task (SniffIo.Task.activeReader spare))).io.state = .sniffing (s.activeReader spare).1 := by
    simp only [IoRun.step, AsyncIo.runTask, SniffIo.runTask, hstate]
  obtain ⟨haccepting, hwritten⟩ : (s.activeReader spare).1.inner.accepting = s.inner.accepting ∧
      (s.activeReader spare).1.inner.written = s.inner.written := by
    rcases s.activeReader_cases spare with heq | ⟨-, e, incoming, -, heq⟩ |
      ⟨-, incoming, -, heq⟩ | ⟨-, part, left, incoming, -, -, heq⟩ <;>
    · rw [heq]
      exact ⟨rfl, rfl⟩
  have hfounded : Founded (answers ++ arrival (.task (.activeReader spare)))
      (s.activeReader spare).1 r.seen := (hf.activeReader spare).quiet rfl
  obtain ⟨hfollows, hdropped⟩ :=
    h.task hstate hstate' hfounded haccepting hwritten (s.activeReader_dropped spare)
  exact ⟨hfollows, hdropped⟩

/-- The tap forwarder takes its turn. -/
theorem tapForwarder (h : Follows answers dataCapacity tapCapacity r b) :
    Next answers dataCapacity tapCapacity r b (.task .tapForwarder) := by
  obtain ⟨s, -, -, hstate, -, hf, -, -⟩ := h.sniffing
  obtain ⟨tapChannel, tapFinished, hs⟩ := s.tapForwarder_frame
  have hstate' : (r.step (.task SniffIo.Task.tapForwarder)).io.state
      = .sniffing { s with tapChannel := tapChannel, tapFinished := tapFinished } := by
    rw [← hs]
    simp only [IoRun.step, AsyncIo.runTask, SniffIo.runTask, hstate]
  have hfounded : Founded (answers ++ arrival (.task .tapForwarder))
      { s with tapChannel := tapChannel, tapFinished := tapFinished } r.seen := by
    refine Founded.quiet ?_ rfl
    exact hf.congr rfl rfl fun _ => id
  obtain ⟨hfollows, hdropped⟩ := h.task hstate hstate' hfounded rfl rfl (Nat.le_refl _)
  exact ⟨hfollows, hdropped⟩

/-- The owner reads.  What this read brings comes in on the bare transport just before, and is read
at once. -/
theorem pollRead (h : Follows answers dataCapacity tapCapacity r b) {buf : ReadBuf}
    (hroom : 0 < buf.remaining) :
    Next answers dataCapacity tapCapacity r b (.pollRead buf) := by
  obtain ⟨s, sent, received, hstate, hbooks, hf, hbottom, hdropped⟩ := h.sniffing
  obtain ⟨s', hio, hinner, hdropped', herror, hbrings⟩ := hbooks.pollRead_cases hstate hroom
  have hstate' : (r.step (.pollRead buf)).io.state = .sniffing s' := by
    change (r.io.pollRead buf).io.state = .sniffing s'
    rw [hio]
  obtain ⟨hidle, hseen, haccepting, hwritten⟩ := IoRun.run_read h.idle hbrings
  refine ⟨⟨h.balances.step _, ?_, hidle, ?_, ?_, ?_⟩, ?_⟩
  · intro s'' hs''
    rw [hstate'] at hs''
    cases hs''
    rw [r.step_seen]
    refine Founded.quiet ?_ rfl
    exact (hf.brings hbrings).congr (by rw [hinner]) (by rw [hinner]) herror
  · rw [r.step_seen, ← h.seen]
    exact hseen
  · rw [SniffIo.bottom_sniffing hstate', hinner, ← hbottom, ← h.accepting]
    exact haccepting
  · rw [SniffIo.bottom_sniffing hstate', hinner, ← hbottom, ← h.written]
    exact hwritten
  · rw [hdropped, SniffIo.dataDroppedBytes_sniffing hstate', hdropped']

/-- The owner writes.  Both transports have the same answers to writes before them. -/
theorem pollWrite (h : Follows answers dataCapacity tapCapacity r b) (bs : Bytes) :
    Next answers dataCapacity tapCapacity r b (.pollWrite bs) := by
  obtain ⟨s, -, -, hstate, -, hf, hbottom, hdropped⟩ := h.sniffing
  have hstate' : (r.step (.pollWrite bs)).io.state
      = .sniffing { s with inner := (s.inner.pollWrite bs).io } := by
    simp only [IoRun.step, AsyncIo.pollWrite, SniffIo.pollWrite, hstate]
  obtain ⟨hincoming, hread⟩ := s.inner.pollWrite_io bs
  obtain ⟨haccepting, hwritten⟩ :=
    b.io.pollWrite_congr (h.accepting.trans (congrArg _ hbottom))
      (h.written.trans (congrArg _ hbottom)) bs
  refine ⟨⟨h.balances.step _, ?_, ?_, h.seen, ?_, ?_⟩, ?_⟩
  · intro s' hs'
    rw [hstate'] at hs'
    cases hs'
    refine Founded.quiet ?_ rfl
    exact hf.congr hincoming hread fun _ => id
  · exact (b.io.pollWrite_io bs).1.trans h.idle
  · rw [SniffIo.bottom_sniffing hstate']
    exact haccepting
  · rw [SniffIo.bottom_sniffing hstate']
    exact hwritten
  · rw [hdropped, SniffIo.dataDroppedBytes_sniffing hstate']

/-- **One operation on the layer, and what the bare transport does in its place.** -/
theorem step (h : Follows answers dataCapacity tapCapacity r b)
    {op : IoOp (SniffIo.Task RawEvent)} (hroom : HasRoom op) :
    Next answers dataCapacity tapCapacity r b op :=
  match op, hroom with
  | .task (.inner (.arrive answer)), _ => h.arrive answer
  | .task (.inner (.accept answer)), _ => h.accept answer
  | .task (.activeReader spare), _ => h.activeReader spare
  | .task .tapForwarder, _ => h.tapForwarder
  | .pollRead _, hroom => h.pollRead hroom
  | .pollWrite bs, _ => h.pollWrite bs

/-- **A run of the layer, and what the bare transport does meanwhile.** -/
theorem run (h : Follows answers dataCapacity tapCapacity r b)
    {ops : List (IoOp (SniffIo.Task RawEvent))} (hroom : ∀ op ∈ ops, HasRoom op) :
    Follows (answers ++ arrivals ops) dataCapacity tapCapacity (r.run ops) (b.run (behind r ops)) ∧
      r.io.dataDroppedBytes ≤ (r.run ops).io.dataDroppedBytes := by
  induction ops generalizing answers r b with
  | nil =>
      rw [arrivals, List.flatMap_nil, List.append_nil]
      exact ⟨h, Nat.le_refl _⟩
  | cons op ops ih =>
      obtain ⟨hstep, hle⟩ := h.step (hroom op (List.mem_cons_self ..))
      have hroom' : ∀ op ∈ ops, HasRoom op := by
        intro op' hop
        exact hroom op' (List.mem_cons_of_mem _ hop)
      obtain ⟨hrun, hle'⟩ := ih hstep hroom'
      rw [List.append_assoc] at hrun
      rw [behind, IoRun.run_append]
      exact ⟨hrun, hle.trans hle'⟩

end Follows

/-! ### A slower line -/

/-- All that has arrived at a layer is with its owner. -/
structure Settled (s : Sniffing RawTransport) : Prop where
  incoming : s.inner.incoming = []
  pending : s.pending = none
  queue : s.dataChannel.queue = []

/-- The bare transport on which `bare` was done cannot be told from a capturing layer on which `ops`
was done.  The calls were the same, and so was what the reads brought, what the writes have taken
and what the next will take.  What has come in on the bare transport has come in on the layer; all
of it, when the layer has settled.  Its errors are ends that the layer had, or tell of one; and its
stream does not end. -/
structure Mimics (timing : Bool) (bufSize dataCapacity tapCapacity : ℕ)
    (ops : List (IoOp (SniffIo.Task RawEvent))) (bare : List (IoOp RawEvent)) : Prop where
  asked : ownerCalls bare = ownerCalls ops
  seen : ((IoRun.start RawTransport.new).run bare).seen
    = (tappedRun timing bufSize dataCapacity tapCapacity ops).seen
  written : ((IoRun.start RawTransport.new).run bare).io.written
    = (tappedRun timing bufSize dataCapacity tapCapacity ops).io.bottom.written
  accepting : ((IoRun.start RawTransport.new).run bare).io.accepting
    = (tappedRun timing bufSize dataCapacity tapCapacity ops).io.bottom.accepting
  lags : bytesOf (rawArrivals bare) <+: bytesOf (arrivals ops)
  settled : ∀ s, (tappedRun timing bufSize dataCapacity tapCapacity ops).io.state = .sniffing s →
    Settled s → bytesOf (rawArrivals bare) = bytesOf (arrivals ops)
  errors : ∀ e, .error e ∈ rawArrivals bare → Ended (arrivals ops) e ∨ e = READER_TERMINATED
  goesOn : .ok [] ∉ rawArrivals bare

section Run

variable {timing : Bool} {bufSize dataCapacity tapCapacity : ℕ}

theorem mem_answers {events : List ReadEvent} :
    (∀ e, Except.error e ∈ events.filterMap answerOf → ReadEvent.error e ∈ events) ∧
      ∀ bs, Except.ok bs ∈ events.filterMap answerOf → ReadEvent.data bs ∈ events := by
  constructor
  · intro e he
    obtain ⟨event, hmem, hevent⟩ := List.mem_filterMap.1 he
    cases event <;> cases hevent
    exact hmem
  · intro bs hbs
    obtain ⟨event, hmem, hevent⟩ := List.mem_filterMap.1 hbs
    cases event <;> cases hevent
    exact hmem

/-- What the bare transport does while a layer drops nothing. -/
theorem mimics_behind {ops : List (IoOp (SniffIo.Task RawEvent))} (hroom : ∀ op ∈ ops, HasRoom op)
    (hkept : (tappedRun timing bufSize dataCapacity tapCapacity ops).io.dataDroppedBytes = 0) :
    Mimics timing bufSize dataCapacity tapCapacity ops
      (behind (tapped timing bufSize dataCapacity tapCapacity) ops) := by
  have h : Follows (arrivals ops) dataCapacity tapCapacity
      (tappedRun timing bufSize dataCapacity tapCapacity ops)
      ((IoRun.start .new).run (behind (tapped timing bufSize dataCapacity tapCapacity) ops)) :=
    ((Follows.start timing bufSize dataCapacity tapCapacity).run hroom).1
  obtain ⟨hasked, events, hseen, harrivals⟩ :=
    behind_eq (tapped timing bufSize dataCapacity tapCapacity) ops
  have hevents : (tappedRun timing bufSize dataCapacity tapCapacity ops).seen = events := hseen
  obtain ⟨-, s, sent, received, hstate, hbooks⟩ := id h.balances
  have hf := h.founded s hstate
  rw [SniffIo.dataDroppedBytes_sniffing hstate] at hkept
  have hhanded := hbooks.handed_eq hkept
  have hbytes : bytesOf (rawArrivals (behind (tapped timing bufSize dataCapacity tapCapacity) ops))
      = OmsModbus.pending (tappedRun timing bufSize dataCapacity tapCapacity ops).seen := by
    rw [harrivals, bytesOf_answers, hevents]
  obtain ⟨herrors, hdata⟩ := @mem_answers events
  refine ⟨hasked, h.seen, h.written, h.accepting, ?_, ?_, ?_, ?_⟩
  · -- what the owner has read was read from the transport, and has arrived there
    rw [hbytes, ← hf.bytes, ← hhanded]
    exact ((List.prefix_append _ _).trans (List.prefix_append _ _)).trans (List.prefix_append _ _)
  · intro s' hs' hsettled
    rw [hstate] at hs'
    cases hs'
    rw [hbytes, ← hf.bytes, ← hhanded, hsettled.incoming, hsettled.pending, hsettled.queue]
    simp [bytesOf]
  · intro e he
    rw [harrivals] at he
    exact hf.told e (by rw [hevents]; exact herrors e he)
  · intro hnil
    rw [harrivals] at hnil
    exact hf.full (by rw [hevents]; exact hdata [] hnil)

/-- **A captured line is a slower line.**  While a capturing layer drops nothing, there is a bare
transport that cannot be told from it by its owner at any time: it is asked the same, it answers the
same, and it takes the same, but what comes in on it comes in later. -/
theorem captured_mimicked (timing : Bool) (bufSize dataCapacity tapCapacity : ℕ)
    (ops : List (IoOp (SniffIo.Task RawEvent))) (hroom : ∀ op ∈ ops, HasRoom op)
    (hkept : (tappedRun timing bufSize dataCapacity tapCapacity ops).io.dataDroppedBytes = 0) :
    ∃ bare : ℕ → List (IoOp RawEvent), (∀ n, bare n <+: bare (n + 1)) ∧
      ∀ n, Mimics timing bufSize dataCapacity tapCapacity (ops.take n) (bare n) := by
  refine ⟨fun n => behind (tapped timing bufSize dataCapacity tapCapacity) (ops.take n), ?_, ?_⟩
  · intro n
    simp only [List.take_add_one, behind_append]
    exact List.prefix_append _ _
  · intro n
    have hbefore : ∀ op ∈ ops.take n, HasRoom op := by
      intro op hop
      exact hroom op (List.mem_of_mem_take hop)
    have hbehind : ∀ op ∈ ops.drop n, HasRoom op := by
      intro op hop
      exact hroom op (List.mem_of_mem_drop hop)
    refine mimics_behind hbefore ?_
    -- what was dropped later is counted in the end
    have hfirst := ((Follows.start timing bufSize dataCapacity tapCapacity).run hbefore).1
    have hle := (hfirst.run hbehind).2
    rw [← IoRun.run_append, List.take_append_drop] at hle
    exact Nat.eq_zero_of_le_zero (hle.trans (Nat.le_of_eq hkept))

/-- A chunk is read in two pieces, a byte is written, and the stream ends. -/
theorem captured_mimicked_pieces :
    let ops : List (IoOp (SniffIo.Task RawEvent)) :=
      [.task (.inner (.arrive (.ok [1, 2, 3]))), .task (.activeReader 7), .pollRead ⟨[], 2⟩,
        .task (.inner (.accept (.ok 1))), .pollWrite [4], .task (.inner (.arrive (.ok []))),
        .task (.activeReader 7), .pollRead ⟨[], 8⟩, .pollRead ⟨[], 8⟩]
    (tappedRun false 4096 16 16 ops).seen
        = [.data [1, 2], .data [3], .error ⟨.unexpectedEof, "transport closed"⟩] ∧
      ∃ bare : ℕ → List (IoOp RawEvent), (∀ n, bare n <+: bare (n + 1)) ∧
        ∀ n, Mimics false 4096 16 16 (ops.take n) (bare n) :=
  ⟨rfl, captured_mimicked false 4096 16 16 _ (by simp [HasRoom]) rfl⟩

end Run

end OmsModbus.Capture
