import WlrRemote.Common

/-!
`virtual_pointer.c`: a packet becomes requests on the virtual pointer, and the globals of
the compositor are bound.
-/

set_option autoImplicit false

namespace WlrRemote
open Octets

def BTN_LEFT : UInt16 := 0x110
def BTN_RIGHT : UInt16 := 0x111
def BTN_MIDDLE : UInt16 := 0x112
def BTN_SIDE : UInt16 := 0x113
def BTN_EXTRA : UInt16 := 0x114

/-- The product is one of 32-bit integers. -/
def wlFixedFromInt (i : Int32) : WlFixed := i * 256

def vpHandlePacket (state : ClientState) (packet : MousePacket) : ClientState :=
  if 1 < packet.buttonState then state.print (.invalidButtonState packet.buttonState)
  else
    let rest := fun state : ClientState =>
      let dx := wlFixedFromInt packet.dx
      let dy := wlFixedFromInt packet.dy
      let state := if dx ≠ 0 ∨ dy ≠ 0 then state.request (.motion 0 dx dy) else state
      state.request .frame
    if packet.button ∈ [BTN_LEFT,BTN_RIGHT,BTN_MIDDLE,BTN_SIDE,BTN_EXTRA] then
      rest (state.request (.button 0 packet.button.toUInt32 packet.buttonState.toUInt32))
    else if packet.button = 0 then rest state
    else state.print (.unknownButton packet.button)

structure Global where
  name : UInt32
  interface : Bytes
  version : UInt32
  deriving DecidableEq

structure Bind where
  name : UInt32
  interface : Bytes
  version : UInt32
  deriving DecidableEq

/-- The slots of `struct client_state` for bound objects. A proxy is the number of the
request that made it. -/
structure RegistryState where
  seat : Option Nat
  pointerManager : Option Nat
  binds : List Bind
  destroyed : List Nat
  deriving DecidableEq

def wlSeatInterface : Bytes := ascii "wl_seat"

def zwlrVirtualPointerManagerV1Interface : Bytes := ascii "zwlr_virtual_pointer_manager_v1"

def wlRegistryBind (s : RegistryState) (name : UInt32) (interface : Bytes) (version : UInt32) :
    Nat × RegistryState :=
  (s.binds.length,{ s with binds := s.binds ++ [⟨name,interface,version⟩] })

def registryHandleGlobal (s : RegistryState) (g : Global) : RegistryState :=
  if g.interface = wlSeatInterface then
    let (proxy,s) := wlRegistryBind s g.name wlSeatInterface 1
    { s with seat := some proxy }
  else if g.interface = zwlrVirtualPointerManagerV1Interface then
    let (proxy,s) := wlRegistryBind s g.name zwlrVirtualPointerManagerV1Interface 2
    { s with pointerManager := some proxy }
  else s

end WlrRemote
