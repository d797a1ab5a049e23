/-
**Errors of the library.**

Two kinds of error travel through the code: the I/O errors of the byte streams and of the PDU
codec, which carry a kind and a message, and the structured `ModbusError` that a client call
returns.  The conversion from the one to the other decides whether a lost connection is retried.

Main definitions:

* `OmsModbus.ErrorKind`, `OmsModbus.IoError` — the I/O errors;
* `OmsModbus.ModbusError` — the errors of a client call;
* `OmsModbus.ModbusError.ofIoError` — the conversion;
* `OmsModbus.isRetryable` — the errors for which a transport is rebuilt.
-/

import Mathlib

set_option relaxedAutoImplicit false
set_option autoImplicit false

namespace OmsModbus

/-! ### I/O errors -/

/-- The kinds of I/O error the code distinguishes; `other` stands for every further kind. -/
inductive ErrorKind
  | invalidData
  | unexpectedEof
  | timedOut
  | wouldBlock
  | connectionRefused
  | connectionReset
  | connectionAborted
  | brokenPipe
  | notConnected
  | other
  deriving DecidableEq, Repr

/-- An I/O error: its kind and the message it displays. -/
structure IoError where
  kind : ErrorKind
  msg : String
  deriving DecidableEq, Repr

/-! ### Errors of a client call -/

/-- Structured error of a client call. -/
inductive ModbusError
  | noError
  | timeout (msg : String)
  | connection (msg : String)
  | protocol (msg : String)
  | exception (function code : UInt8)
  | serial (msg : String)
  | other (msg : String)
  deriving DecidableEq, Repr

/-- `From<io::Error>`: only timeouts and hard connection failures keep their meaning. -/
def ModbusError.ofIoError (e : IoError) : ModbusError :=
  match e.kind with
  | .timedOut | .wouldBlock => .timeout e.msg
  | .connectionRefused | .connectionReset | .connectionAborted | .brokenPipe | .notConnected =>
      .connection e.msg
  | _ => .other e.msg

/-- Human-readable description of an exception code. -/
def exceptionName (code : UInt8) : String :=
  match code with
  | 1 => "Illegal Function"
  | 2 => "Illegal Data Address"
  | 3 => "Illegal Data Value"
  | 4 => "Server Device Failure"
  | 5 => "Acknowledge"
  | 6 => "Server Device Busy"
  | 7 => "Negative Acknowledge"
  | 8 => "Memory Parity Error"
  | 10 => "Gateway Path Unavailable"
  | 11 => "Gateway Target Device Failed to Respond"
  | _ => "Unknown Exception"

/-- The full message of an error. -/
def ModbusError.detail : ModbusError → String
  | noError => "OK"
  | timeout m => s!"TIMEOUT: {m}"
  | connection m => s!"CONNECTION ERROR: {m}"
  | protocol m => s!"PROTOCOL ERROR: {m}"
  | exception function code => s!"{exceptionName code} (FC={function}, code={code})"
  | serial m => s!"PORT ERROR: {m}"
  | other m => m

/-- Only hard transport errors trigger a reconnect. -/
def isRetryable : ModbusError → Bool
  | .connection _ | .serial _ => true
  | _ => false

/-! ### Messages -/

def SEND_TIMEOUT : String := "send timed out"
def RECV_TIMEOUT : String := "recv timed out"
def TCP_RECV_TIMEOUT : String := "TCP recv timed out"
def CONN_CLOSED : String := "connection closed"
def TCP_EMPTY_RESP : String := "empty TCP response PDU"
def RTU_RECV_TIMEOUT : String := "RTU recv timed out"
def PDU_ENCODE_ERROR : String := "PDU encode:"
def PDU_DECODE_ERROR : String := "PDU decode:"
def SLAVE_ID_MISMATCH : String := "slave ID mismatch: expected"

end OmsModbus
