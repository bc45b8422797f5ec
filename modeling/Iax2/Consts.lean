/-!
# Protocol constants

The numbers of the wire format, as the source tabulates them from the protocol standard. Only the
values that a modelled function reads are listed.
-/

namespace Iax2

/-! ## Frame types -/

namespace Frametype

def dtmf : UInt8 := 0x01
def voice : UInt8 := 0x02
def video : UInt8 := 0x03
def control : UInt8 := 0x04
/-- Protocol control: NEW, REGREQ and the rest of `Iax`. -/
def iax : UInt8 := 0x06
def text : UInt8 := 0x07
def image : UInt8 := 0x08
def html : UInt8 := 0x09
def cng : UInt8 := 0x0A

end Frametype

/-! ## Subclasses of frames of type IAX -/

namespace Iax

def new : UInt8 := 0x01
def ping : UInt8 := 0x02
def pong : UInt8 := 0x03
def ack : UInt8 := 0x04
def hangup : UInt8 := 0x05
def reject : UInt8 := 0x06
def accept : UInt8 := 0x07
def authreq : UInt8 := 0x08
def authrep : UInt8 := 0x09
def inval : UInt8 := 0x0A
def lagrq : UInt8 := 0x0B
def lagrp : UInt8 := 0x0C
def regreq : UInt8 := 0x0D
def regauth : UInt8 := 0x0E
def regack : UInt8 := 0x0F
def regrej : UInt8 := 0x10
def poke : UInt8 := 0x1E
def calltoken : UInt8 := 0x28

end Iax

/-! ## Subclasses of frames of type CONTROL -/

namespace Control

def ringing : UInt8 := 0x03
def answer : UInt8 := 0x04
def busy : UInt8 := 0x05
def hold : UInt8 := 0x10
def unhold : UInt8 := 0x11

end Control

/-! ## Information element kinds -/

namespace IeKind

def calledNumber : UInt8 := 0x01
def callingNumber : UInt8 := 0x02
def callingName : UInt8 := 0x04
def username : UInt8 := 0x06
def capability : UInt8 := 0x08
def format : UInt8 := 0x09
def version : UInt8 := 0x0B
def authmethods : UInt8 := 0x0E
def challenge : UInt8 := 0x0F
def md5Result : UInt8 := 0x10
def refresh : UInt8 := 0x13
def cause : UInt8 := 0x16
def causecode : UInt8 := 0x2A
/-- The anti-spoofing token of NEW and REGREQ. -/
def calltoken : UInt8 := 0x36

end IeKind

/-- The MD5 bit of the AUTHMETHODS mask. -/
def Authmethod.md5 : UInt16 := 0x0002

/-- The µ-law bit of the FORMAT mask. -/
def Format.ulaw : UInt32 := 4

/-- The protocol version declared in a NEW. -/
def iaxProtoVersion : UInt16 := 2

end Iax2
