import WlrRemote.Setup

/-!
`test-client.c`: the packets of a client, its password, and what it tells the DTLS layer.
-/

set_option autoImplicit false

namespace WlrRemote
open Octets

def testClientPacket (o : ByteOrder) (dx dy : Int32) (button buttonState : UInt16) : Bytes :=
  let pkt : MousePacket := {
    dx := (o.htonl dx.toUInt32).toInt32
    dy := (o.htonl dy.toUInt32).toInt32
    button := o.htons button
    buttonState := o.htons buttonState }
  pkt.image o

/-- The contents of `psk_key` and `psk_key_len`; without input the client gives up. -/
def testClientPassword (dtls : Tinydtls) (stdin : Bytes) : Option (Bytes × Nat) :=
  match fgets (pskBufferSize dtls) stdin with
  | none => none
  | some res =>
    let len := strcspn res newline
    some ((res ++ [0]).set len 0,len)

def testClientGetPskInfo (dtls : Tinydtls) (pskKey : Bytes) (pskKeyLen : Nat)
    (type : DtlsCredentialsType) (resultLength : Nat) : Int × Bytes :=
  if type = .pskIdentity then
    if resultLength < PSK_ID.length then (dtls.alertFatalCreate dtls.alertInternalError,[])
    else (PSK_ID.length,PSK_ID)
  else if type = .pskKey then
    if resultLength < pskKeyLen then (dtls.alertFatalCreate dtls.alertInternalError,[])
    else (pskKeyLen,pskKey.take pskKeyLen)
  else (dtls.alertFatalCreate dtls.alertInternalError,[])

end WlrRemote
