/-
**How much a server keeps.**

A server appends what it reads to its buffer and takes requests off the front.  What is no request
stays, until a rule of the loop throws it away.  The TCP server gives a buffer up that starts with a
corrupt header or has grown too long.  The two serial servers only throw their buffer away when the
bus falls silent, so on a line that never pauses nothing limits what they keep.

Main definitions:

* `OmsModbus.ServerKind` — the three servers;
* `OmsModbus.ServerKind.receiveBuffer` — the buffer of a server behind some reads;
* `OmsModbus.ServerKind.Bounded` — one bound for all lines and all services;
* `OmsModbus.sinceSilence` — how many bytes have come since the bus was last silent.

Main results:

* `OmsModbus.handleTcpConnection_bounded` — the TCP server keeps 1040 bytes at most;
* `OmsModbus.serveSerial_pile` — **bytes in which the parser finds nothing pile up**;
* `OmsModbus.serverKind_bounded_iff` — **only the TCP server has a bounded buffer**;
* `OmsModbus.serveSerial_length_le` — a serial server keeps no more than what has come since the
  bus was last silent.
-/

import OmsModbus.SerialResync
import OmsModbus.Tcp

set_option relaxedAutoImplicit false
set_option autoImplicit false

namespace OmsModbus

open StreamFraming

variable {σ τ : Type}

/-! ### The servers -/

/-- The server loops of the library. -/
inductive ServerKind
  | tcp (cfg : TcpConfig)
  | rtu
  | ascii

/-- The buffer of a server behind some reads, between which the bus is never silent. -/
def ServerKind.receiveBuffer (service : Service σ) (writeOk : ℕ → Bool) (s : σ)
    (reads : List Bytes) : ServerKind → Bytes
  | .tcp cfg => (handleTcpConnection service cfg writeOk (.idle s) (reads.map .ok)).buf
  | .rtu => (serveRtu service writeOk (.idle s) (reads.map .data)).buf
  | .ascii => (serveAscii service writeOk (.idle s) (reads.map .data)).buf

/-- There is a bound on the buffer with the next read appended, whatever comes in. -/
def ServerKind.Bounded (k : ServerKind) : Prop :=
  ∃ bound : ℕ, ∀ (σ : Type) (service : Service σ) (writeOk : ℕ → Bool) (s : σ)
    (reads : List Bytes) (next : Bytes), (∀ bs ∈ reads, bs.length ≤ MAX_ADU_SIZE) →
      next.length ≤ MAX_ADU_SIZE →
      (k.receiveBuffer service writeOk s reads ++ next).length ≤ bound

/-! ### TCP -/

section Tcp

variable {P : Protocol τ} {service : Service σ} {writeOk : ℕ → Bool}

theorem serveFrames_length_le (fuel : ℕ) (s : ServerLoop τ σ) :
    (serveFrames P service writeOk fuel s).buf.length ≤ s.buf.length := by
  induction fuel generalizing s with
  | zero => exact le_rfl
  | succ fuel ih =>
      rw [serveFrames]
      cases hp : P.parse s.buf with
      | none => exact le_rfl
      | some r =>
          obtain ⟨x, n⟩ := r
          have hdrop : (ServerLoop.serve P service writeOk (s.setBuf (s.buf.drop n)) x).buf.length
              ≤ s.buf.length := by
            rw [ServerLoop.serve_buf, ServerLoop.setBuf_buf, List.length_drop]
            omega
          simp only
          split
          · exact (ih _).trans hdrop
          · exact hdrop

/-- The inner loop only takes bytes off the buffer. -/
theorem serveBuffer_length_le (P : Protocol τ) (service : Service σ) (writeOk : ℕ → Bool)
    (s : ServerLoop τ σ) : (serveBuffer P service writeOk s).buf.length ≤ s.buf.length :=
  serveFrames_length_le _ s

/-- A TCP server that reads has no more in its buffer than the cap allows; one that has stopped may
have kept its last read. -/
structure ServerLoop.Capped (s : ServerLoop UInt16 σ) : Prop where
  kept : s.running = true → s.buf.length ≤ MAX_TCP_BUF_BYTES
  left : s.buf.length ≤ MAX_TCP_BUF_BYTES + MAX_ADU_SIZE

/-- A read keeps the cap. -/
theorem onTcpRead_capped (service : Service σ) (cfg : TcpConfig) (writeOk : ℕ → Bool)
    {s : ServerLoop UInt16 σ} (hs : s.Capped) {read : Except IoError Bytes}
    (hread : ∀ bs, read = .ok bs → bs.length ≤ MAX_ADU_SIZE) :
    (onTcpRead service cfg writeOk s read).Capped := by
  unfold onTcpRead
  by_cases hrun : s.running = true
  · rw [if_pos hrun]
    cases read with
    | error e => exact ⟨fun h => absurd h (by simp), hs.left⟩
    | ok bs =>
        have hbs := hread bs rfl
        have hkept := hs.kept hrun
        have hserved := serveBuffer_length_le (tcpProtocol cfg) service writeOk
          (s.setBuf (s.buf ++ bs))
        rw [ServerLoop.setBuf_buf, List.length_append] at hserved
        simp only
        generalize serveBuffer (tcpProtocol cfg) service writeOk (s.setBuf (s.buf ++ bs)) = t
          at hserved ⊢
        split
        · exact ⟨fun h => absurd h (by simp), hs.left⟩
        · split
          · exact ⟨fun _ => Nat.zero_le _, Nat.zero_le _⟩
          · next hdiscard =>
            refine ⟨?_, by omega⟩
            intro h
            have hcap : tcpDiscard t.buf = false := by simpa [h] using hdiscard
            simp only [tcpDiscard, Bool.or_eq_false_iff, decide_eq_false_iff_not] at hcap
            omega
  · rw [if_neg hrun]
    exact hs

/-- **The TCP server keeps 1040 bytes at most**, whatever it reads. -/
theorem handleTcpConnection_bounded (service : Service σ) (cfg : TcpConfig) (writeOk : ℕ → Bool)
    {s : ServerLoop UInt16 σ} (hs : s.Capped) {reads : List (Except IoError Bytes)}
    (hreads : ∀ bs, .ok bs ∈ reads → bs.length ≤ MAX_ADU_SIZE) :
    (handleTcpConnection service cfg writeOk s reads).Capped := by
  unfold handleTcpConnection
  induction reads generalizing s with
  | nil => exact hs
  | cons read reads ih =>
      have hread : ∀ bs, read = .ok bs → bs.length ≤ MAX_ADU_SIZE :=
        fun bs h => hreads bs (h ▸ List.mem_cons_self ..)
      exact ih (onTcpRead_capped service cfg writeOk hs hread)
        fun bs h => hreads bs (List.mem_cons_of_mem _ h)

end Tcp

/-! ### The serial servers -/

section Serial

variable {P : Protocol τ} {onSilence : Bytes → Bytes}

/-- **Bytes in which the parser finds nothing pile up.** -/
theorem serveSerial_pile (service : Service σ) (writeOk : ℕ → Bool) (s : σ) {reads : List Bytes}
    (hne : ∀ bs ∈ reads, bs ≠ [])
    (hnone : ∀ k, P.parse (reads.take k).flatten = none) :
    (serveSerial P service writeOk onSilence (.idle s) (reads.map .data)).buf = reads.flatten := by
  have hrun : P.run (fun _ => false) [] reads = ([], reads.flatten) := by
    have happend : P.run (fun _ => false) [] (reads ++ [])
        = P.run (fun _ => false) ([] ++ reads.flatten) [] :=
      P.run_append_of_parse_none (fun k _ _ => hnone k) []
    rw [List.append_nil, List.nil_append] at happend
    exact happend
  obtain ⟨b, hserve, hbuf⟩ := serveSerial_data_while P service writeOk onSilence hne
    (ServerLoop.idle s) rfl
  rw [show (ServerLoop.idle s : ServerLoop τ σ).buf = [] from rfl, hrun] at hserve hbuf
  rw [hserve]
  refine hbuf ?_
  rw [hserve]
  rfl

/-- A buffer without a known function code is no request. -/
theorem tryParseServerRtu_unknown {b : Bytes}
    (h : ∀ fc ∈ b[1]?, isKnownFunctionCode fc = false) : tryParseServerRtu b = none := by
  unfold tryParseServerRtu
  split
  · rfl
  · next hlen =>
    rw [MIN_RTU_FRAME] at hlen
    split
    · rfl
    · split
      · next slaveId fc data htake =>
        have hfc : b[1]? = some fc := by
          rw [← List.getElem?_take_of_lt (show 1 < b.length - 2 by omega), htake]
          rfl
        rw [h fc hfc]
        rfl
      · rfl

theorem crlfPos_replicate (n : ℕ) : crlfPos (List.replicate n 0) = none := by
  induction n with
  | zero => rfl
  | succ n ih =>
      cases n with
      | zero => rfl
      | succ n =>
          have hcr : ¬ ((0 : UInt8) = CR ∧ (0 : UInt8) = LF) := by decide
          rw [List.replicate_succ] at ih ⊢
          rw [List.replicate_succ, crlfPos, if_neg hcr, ih]
          rfl

theorem rtuParse_zeros (n : ℕ) : rtuProtocol.parse (List.replicate n 0) = none := by
  refine tryParseServerRtu_unknown ?_
  intro fc hfc
  obtain rfl : fc = 0 := List.eq_of_mem_replicate (List.mem_of_getElem? hfc)
  decide

theorem asciiParse_zeros (n : ℕ) : asciiProtocol.parse (List.replicate n 0) = none := by
  change tryParseAscii _ = none
  rw [tryParseAscii]
  cases n with
  | zero => rfl
  | succ n =>
      rw [List.length_replicate, tryParseAsciiFrom, crlfPos_replicate]

/-- A line that sends nothing but zeros. -/
def zeroReads (n : ℕ) : List Bytes := List.replicate n (List.replicate MAX_ADU_SIZE 0)

theorem zeroReads_flatten (n : ℕ) :
    (zeroReads n).flatten = List.replicate (n * MAX_ADU_SIZE) 0 := List.flatten_replicate_replicate

theorem take_zeroReads (n k : ℕ) : (zeroReads n).take k = zeroReads (min k n) :=
  List.take_replicate

/-- A serial server that finds nothing in zeros keeps all that come in. -/
theorem serveSerial_zeros (hzeros : ∀ n, P.parse (List.replicate n 0) = none) (service : Service σ)
    (writeOk : ℕ → Bool) (s : σ) (n : ℕ) :
    (serveSerial P service writeOk onSilence (.idle s) ((zeroReads n).map .data)).buf.length
      = n * MAX_ADU_SIZE := by
  have hne : ∀ bs ∈ zeroReads n, bs ≠ [] := by
    intro bs hbs
    rw [List.eq_of_mem_replicate hbs]
    exact List.cons_ne_nil _ _
  rw [serveSerial_pile service writeOk s hne, zeroReads_flatten, List.length_replicate]
  intro k
  rw [take_zeroReads, zeroReads_flatten]
  exact hzeros _

end Serial

/-! ### Which servers are bounded -/

theorem length_of_mem_zeroReads {n : ℕ} {bs : Bytes} (h : bs ∈ zeroReads n) :
    bs.length ≤ MAX_ADU_SIZE := by
  rw [List.eq_of_mem_replicate h, List.length_replicate]

/-- A server that keeps all zeros has no bound. -/
theorem ServerKind.not_bounded_of_zeros {k : ServerKind}
    (h : ∀ n, (k.receiveBuffer storeService (fun _ => true) .new (zeroReads n)).length
      = n * MAX_ADU_SIZE) : ¬ k.Bounded := by
  intro hbounded
  obtain ⟨bound, hbound⟩ := hbounded
  have hle := hbound SlaveStore storeService (fun _ => true) .new (zeroReads (bound + 1)) []
    (fun _ => length_of_mem_zeroReads) (Nat.zero_le _)
  rw [List.append_nil, h, MAX_ADU_SIZE] at hle
  omega

theorem rtu_not_bounded : ¬ ServerKind.rtu.Bounded :=
  ServerKind.not_bounded_of_zeros (serveSerial_zeros rtuParse_zeros storeService _ _)

theorem ascii_not_bounded : ¬ ServerKind.ascii.Bounded :=
  ServerKind.not_bounded_of_zeros (serveSerial_zeros asciiParse_zeros storeService _ _)

theorem tcp_bounded (cfg : TcpConfig) : (ServerKind.tcp cfg).Bounded := by
  refine ⟨MAX_TCP_BUF_BYTES + MAX_ADU_SIZE + MAX_ADU_SIZE, ?_⟩
  intro σ service writeOk s reads next hreads hnext
  have hidle : (ServerLoop.idle s : ServerLoop UInt16 σ).Capped :=
    ⟨fun _ => Nat.zero_le _, Nat.zero_le _⟩
  have hmem : ∀ bs, Except.ok bs ∈ reads.map (Except.ok (ε := IoError)) →
      bs.length ≤ MAX_ADU_SIZE := by
    intro bs hbs
    obtain ⟨bs', hbs', heq⟩ := List.mem_map.1 hbs
    cases heq
    exact hreads bs hbs'
  have hleft := (handleTcpConnection_bounded service cfg writeOk hidle hmem).left
  rw [List.length_append]
  exact Nat.add_le_add hleft hnext

/-- **Only the TCP server has a bounded buffer.** -/
theorem serverKind_bounded_iff (k : ServerKind) : k.Bounded ↔ ∃ cfg, k = .tcp cfg := by
  cases k with
  | tcp cfg => exact ⟨fun _ => ⟨cfg, rfl⟩, fun _ => tcp_bounded cfg⟩
  | rtu => exact ⟨fun h => absurd h rtu_not_bounded, fun ⟨_, h⟩ => by cases h⟩
  | ascii => exact ⟨fun h => absurd h ascii_not_bounded, fun ⟨_, h⟩ => by cases h⟩

/-- Zeros that never pause fill the buffers of both serial servers. -/
theorem serialServers_not_bounded :
    ¬ ServerKind.rtu.Bounded ∧ ¬ ServerKind.ascii.Bounded ∧ ¬ ∀ k : ServerKind, k.Bounded :=
  ⟨rtu_not_bounded, ascii_not_bounded, fun h => rtu_not_bounded (h .rtu)⟩

/-! ### With silence -/

/-- How many bytes have come since the bus was last silent, after `n` of them. -/
def sinceSilence (n : ℕ) : ReadEvent → ℕ
  | .data bs => n + bs.length
  | .error _ => n
  | .elapsed | .expired => 0

section Silence

variable {P : Protocol τ} {service : Service σ} {writeOk : ℕ → Bool} {onSilence : Bytes → Bytes}

/-- A wait keeps the count. -/
theorem onSerialEvent_length_le (hsilence : ∀ b, P.parse b = none → onSilence b = [])
    {s : ServerLoop τ σ} (hs : s.Drained P) {n : ℕ} (hn : s.running = true → s.buf.length ≤ n)
    (event : ReadEvent)
    (hrun : (onSerialEvent P service writeOk onSilence s event).running = true) :
    (onSerialEvent P service writeOk onSilence s event).buf.length ≤ sinceSilence n event := by
  unfold onSerialEvent at hrun ⊢
  by_cases hs' : s.running = true
  · have hlen := hn hs'
    rw [if_pos hs'] at hrun ⊢
    cases event with
    | data bs =>
        have hserved := serveBuffer_length_le P service writeOk (s.setBuf (s.buf ++ bs))
        rw [ServerLoop.setBuf_buf, List.length_append] at hserved
        simp only [sinceSilence] at hrun ⊢
        split
        · simp only
          omega
        · omega
    | error e => exact absurd hrun (by simp)
    | elapsed | expired =>
        simp only [sinceSilence]
        split
        · next hbuf => rw [hbuf, List.length_nil]
        · rw [hsilence _ (hs hs'), ServerLoop.setBuf_buf, List.length_nil]
  · rw [if_neg hs'] at hrun
    exact absurd hrun hs'

/-- **A serial server keeps no more than what has come since the bus was last silent.** -/
theorem serveSerial_length_le (hnil : P.parse [] = none)
    (hsilence : ∀ b, P.parse b = none → onSilence b = []) (s : σ) (events : List ReadEvent)
    (hrun : (serveSerial P service writeOk onSilence (.idle s) events).running = true) :
    (serveSerial P service writeOk onSilence (.idle s) events).buf.length
      ≤ events.foldl sinceSilence 0 := by
  have hkeep : ∀ b, P.parse b = none → P.parse (onSilence b) = none := by
    intro b hb
    rw [hsilence b hb, hnil]
  suffices h : ∀ (t : ServerLoop τ σ) (n : ℕ), t.Drained P →
      (t.running = true → t.buf.length ≤ n) →
      (serveSerial P service writeOk onSilence t events).running = true →
      (serveSerial P service writeOk onSilence t events).buf.length
        ≤ events.foldl sinceSilence n by
    exact h (.idle s) 0 (fun _ => hnil) (fun _ => le_rfl) hrun
  clear hrun
  induction events with
  | nil =>
      intro t n _ hn hrun
      exact hn hrun
  | cons event events ih =>
      intro t n ht hn hrun
      exact ih _ _ (onSerialEvent_drained hkeep ht event)
        (onSerialEvent_length_le hsilence ht hn event) hrun

end Silence

theorem serveRtu_length_le (service : Service σ) (writeOk : ℕ → Bool) (s : σ)
    (events : List ReadEvent) (hrun : (serveRtu service writeOk (.idle s) events).running = true) :
    (serveRtu service writeOk (.idle s) events).buf.length ≤ events.foldl sinceSilence 0 := by
  refine serveSerial_length_le rfl ?_ s events hrun
  intro b hb
  have hparse : tryParseServerRtu b = none := hb
  rw [rtuOnSilence, hparse]
  rfl

theorem serveAscii_length_le (service : Service σ) (writeOk : ℕ → Bool) (s : σ)
    (events : List ReadEvent)
    (hrun : (serveAscii service writeOk (.idle s) events).running = true) :
    (serveAscii service writeOk (.idle s) events).buf.length ≤ events.foldl sinceSilence 0 :=
  serveSerial_length_le rfl (fun _ _ => rfl) s events hrun

end OmsModbus
