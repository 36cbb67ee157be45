import WlrRemote.Network

/-!
`setup.c`: reading the password and the port.
-/

set_option autoImplicit false

namespace WlrRemote
open Octets

def newline : UInt8 := 10

def fgetsLoop : Nat → Bytes → Bytes
  | 0, _ | _, [] => []
  | n + 1, b :: bs => if b = newline then [b] else b :: fgetsLoop n bs

/-- The string that `fgets` stores; `none` at the end of the stream. -/
def fgets (size : Nat) (stdin : Bytes) : Option Bytes :=
  let stored := fgetsLoop (size - 1) stdin
  if stored = [] then none else some stored

def strcspn (str : Bytes) (reject : UInt8) : Nat :=
  (str.takeWhile fun b => b ≠ 0 ∧ b ≠ reject).length

inductive SetupError where
  | failedToRead | passwordTooLong | passwordEmpty
  deriving DecidableEq, Repr

def pskBufferSize (dtls : Tinydtls) : Nat := dtls.pskMaxKeyLen + 2

/-- The contents of the buffer and the length of the key in it; an error ends the program. -/
def setupPassword (dtls : Tinydtls) (stdin : Bytes) : Except SetupError (Bytes × Nat) :=
  match fgets (pskBufferSize dtls) stdin with
  | none => .error .failedToRead
  | some res =>
    let len := strcspn res newline
    if len = pskBufferSize dtls - 1 then .error .passwordTooLong
    else if len = 0 then .error .passwordEmpty
    else .ok ((res ++ [0]).set len 0,len)

def DEFAULT_PORT : UInt16 := 39076

def isspace (b : UInt8) : Bool := b == 32 || 9 ≤ b && b ≤ 13

def isdigit (b : UInt8) : Bool := 48 ≤ b && b ≤ 57

def strtolDigits : Nat → Bytes → Nat
  | n, [] => n
  | n, b :: bs => if isdigit b then strtolDigits (10 * n + (b.toNat - 48)) bs else n

/-- `strtol` with base 10, for a `long` of 64 bits: what is out of range becomes the bound. -/
def strtol (str : Bytes) : Int :=
  let str := str.dropWhile isspace
  let value : Int := match str with
    | 45 :: digits => -(strtolDigits 0 digits : Int)
    | 43 :: digits => strtolDigits 0 digits
    | digits => strtolDigits 0 digits
  max (-0x8000000000000000) (min value 0x7FFFFFFFFFFFFFFF)

def setupParsePort (argv : List Bytes) : UInt16 :=
  match argv with
  | [] | [_] => DEFAULT_PORT
  | _ :: arg :: _ =>
    let input := strtol arg
    if 0 < input ∧ input ≤ 65535 then UInt16.ofNat input.toNat else DEFAULT_PORT

end WlrRemote
