import Nachos.PostOffice
import Nachos.Mips.Bytes
import Nachos.Library.Blocks

-- The way of one mail through post.cc and network.cc, byte by byte. A structure that
-- is copied into a buffer is there in the byte order of the host; `none` stands for
-- a failed ASSERT, or a copy that reaches outside of a buffer. What a fresh buffer
-- holds is left open: it is an argument.
namespace Nachos.Wire
open Blocks Mips
open Nachos.PostOffice (headerSize MaxWireSize MaxPacketSize MaxMailSize Fate)

abbrev Byte := BitVec 8

structure PacketHeader where
  to_ : BitVec 32
  from_ : BitVec 32
  length : BitVec 32
  deriving DecidableEq, Repr

structure MailHeader where
  to_ : BitVec 32
  from_ : BitVec 32
  length : BitVec 32
  deriving DecidableEq, Repr

structure Mail where
  pktHdr : PacketHeader
  mailHdr : MailHeader
  data : Block Byte MaxMailSize

-- Indexed by `ident`, the address that the device was opened with. Nothing sets
-- sendBusy after the constructor.
structure Network (ident : BitVec 32) where
  sendBusy : Bool
  inHdr : PacketHeader
  inbox : Block Byte MaxPacketSize
  idle : sendBusy = false

structure PostOffice where
  netAddr : BitVec 32
  network : Network netAddr
  boxes : Int → List Mail
  numBoxes : Int

-- The constructors set the length of inHdr only.
def Network.new (addr : BitVec 32) (inHdr : PacketHeader) (inbox : Block Byte MaxPacketSize) : Network addr :=
  ⟨false,{inHdr with length := 0},inbox,rfl⟩

def PostOffice.new (addr : BitVec 32) (nBoxes : Int) (inHdr : PacketHeader) (inbox : Block Byte MaxPacketSize) : PostOffice :=
  ⟨addr,.new addr inHdr inbox,fun _ => [],nBoxes⟩

-- Three words of four bytes.
section
variable (bigEndian : Bool)

def headerBytes (to_ from_ length : BitVec 32) : List Byte :=
  wordBytes bigEndian to_ ++ wordBytes bigEndian from_ ++ wordBytes bigEndian length

def headerWord (bytes : List Byte) (k : Nat) : BitVec 32 :=
  nativeWord bigEndian (bytes.getD (4 * k) 0) (bytes.getD (4 * k + 1) 0) (bytes.getD (4 * k + 2) 0)
    (bytes.getD (4 * k + 3) 0)

def PacketHeader.bytes (hdr : PacketHeader) : List Byte := headerBytes bigEndian hdr.to_ hdr.from_ hdr.length

def PacketHeader.ofBytes (bytes : List Byte) : PacketHeader :=
  ⟨headerWord bigEndian bytes 0,headerWord bigEndian bytes 1,headerWord bigEndian bytes 2⟩

def MailHeader.bytes (hdr : MailHeader) : List Byte := headerBytes bigEndian hdr.to_ hdr.from_ hdr.length

def MailHeader.ofBytes (bytes : List Byte) : MailHeader :=
  ⟨headerWord bigEndian bytes 0,headerWord bigEndian bytes 1,headerWord bigEndian bytes 2⟩

-- Network::Send, with what happens to the packet: the packets that come into the
-- socket of the machine `hdr.to_`, and the result.
def Network.send (network : Network ident) (hdr : PacketHeader) (data : Block Byte MaxPacketSize)
    (fresh : Block Byte MaxWireSize) (fate : Fate) : Option (List (Block Byte MaxWireSize) × Bool) :=
  if network.sendBusy = false ∧ 0 < hdr.length.toNat ∧ hdr.length.toNat ≤ MaxPacketSize ∧ hdr.from_ = ident then
    if fate = .lost then some ([],true)
    else do
      let buffer ← store fresh 0 (hdr.bytes bigEndian)
      let buffer ← copy data 0 buffer headerSize hdr.length.toNat
      if fate = .refused then some ([],false) else some ([buffer],true)
  else none

-- Network::CheckPktAvail: the network, the rest of the socket, and whether the read
-- handler is called.
def Network.checkPktAvail (network : Network ident) (sock : List (Block Byte MaxWireSize)) :
    Option (Network ident × List (Block Byte MaxWireSize) × Bool) :=
  if network.inHdr.length ≠ 0 then some (network,sock,false)
  else match sock with
    | [] => some (network,[],false)
    | buffer :: sock => do
      let header ← load buffer 0 headerSize
      let inHdr := PacketHeader.ofBytes bigEndian header
      if inHdr.to_ = ident ∧ inHdr.length.toNat ≤ MaxPacketSize then
        let inbox ← copy buffer headerSize network.inbox 0 inHdr.length.toNat
        some ({network with inHdr := inHdr, inbox := inbox},sock,true)
      else none

-- Network::Receive: the header, the network, and the buffer of the caller.
def Network.receive (network : Network ident) (data : Block Byte MaxPacketSize) :
    Option (PacketHeader × Network ident × Block Byte MaxPacketSize) :=
  let hdr := network.inHdr
  let network := {network with inHdr := {hdr with length := 0}}
  if hdr.length ≠ 0 then do
    let data ← copy network.inbox 0 data 0 hdr.length.toNat
    some (hdr,network,data)
  else some (hdr,network,data)

-- Mail::Mail and MailBox::Put. The data stands in the caller's buffer from `start` on.
def Mail.new (pktH : PacketHeader) (mailH : MailHeader) (msgData : Block Byte size) (start : Nat)
    (fresh : Block Byte MaxMailSize) : Option Mail :=
  if mailH.length.toNat ≤ MaxMailSize then do
    let data ← copy msgData start fresh 0 mailH.length.toNat
    some ⟨pktH,mailH,data⟩
  else none

def MailBox.put (messages : List Mail) (pktHdr : PacketHeader) (mailHdr : MailHeader) (data : Block Byte size) (start : Nat)
    (fresh : Block Byte MaxMailSize) : Option (List Mail) := do
  let mail ← Mail.new pktHdr mailHdr data start fresh
  some (messages ++ [mail])

-- MailBox::Get. In an empty mailbox the Remove of the list waits.
def MailBox.get (messages : List Mail) (data : Block Byte size) :
    Option (List Mail × PacketHeader × MailHeader × Block Byte size) :=
  match messages with
  | [] => none
  | mail :: rest => do
    let data ← copy mail.data 0 data 0 mail.mailHdr.length.toNat
    some (rest,mail.pktHdr,mail.mailHdr,data)

-- PostOffice::Send up to its call of P.
def PostOffice.send (office : PostOffice) (pktHdr : PacketHeader) (mailHdr : MailHeader) (data : Block Byte size)
    (fresh : Block Byte MaxPacketSize) (packet : Block Byte MaxWireSize) (fate : Fate) :
    Option (List (Block Byte MaxWireSize) × Bool) :=
  if mailHdr.length.toNat ≤ MaxMailSize ∧ 0 ≤ mailHdr.to_.toInt ∧ mailHdr.to_.toInt < office.numBoxes then do
    let pktHdr := {pktHdr with from_ := office.netAddr, length := mailHdr.length + BitVec.ofNat 32 headerSize}
    let buffer ← store fresh 0 (mailHdr.bytes bigEndian)
    let buffer ← copy data 0 buffer headerSize mailHdr.length.toNat
    office.network.send bigEndian pktHdr buffer packet fate
  else none

-- One round of PostalDelivery, after its P.
def PostOffice.postalDelivery (office : PostOffice) (buffer : Block Byte MaxPacketSize) (fresh : Block Byte MaxMailSize) :
    Option PostOffice := do
  let (pktHdr,network,buffer) ← office.network.receive buffer
  let header ← load buffer 0 headerSize
  let mailHdr := MailHeader.ofBytes bigEndian header
  if 0 ≤ mailHdr.to_.toInt ∧ mailHdr.to_.toInt < office.numBoxes ∧ mailHdr.length.toNat ≤ MaxMailSize then
    let messages ← MailBox.put (office.boxes mailHdr.to_.toInt) pktHdr mailHdr buffer headerSize fresh
    some {office with network := network, boxes := Function.update office.boxes mailHdr.to_.toInt messages}
  else none

def PostOffice.receive (office : PostOffice) (box : Int) (data : Block Byte size) :
    Option (PostOffice × PacketHeader × MailHeader × Block Byte size) :=
  if 0 ≤ box ∧ box < office.numBoxes then do
    let (messages,pktHdr,mailHdr,data) ← MailBox.get (office.boxes box) data
    if mailHdr.length.toNat ≤ MaxMailSize then
      some ({office with boxes := Function.update office.boxes box messages},pktHdr,mailHdr,data)
    else none
  else none

theorem headerBytes_length (to_ from_ length : BitVec 32) : (headerBytes bigEndian to_ from_ length).length = headerSize := by
  cases bigEndian <;> simp [headerBytes,wordBytes,headerSize]

theorem headerWord_bytes (to_ from_ length : BitVec 32) :
    headerWord bigEndian (headerBytes bigEndian to_ from_ length) 0 = to_ ∧
    headerWord bigEndian (headerBytes bigEndian to_ from_ length) 1 = from_ ∧
    headerWord bigEndian (headerBytes bigEndian to_ from_ length) 2 = length := by
  have whole : ∀ word, ∃ b0 b1 b2 b3, wordBytes bigEndian word = [b0,b1,b2,b3] ∧
      nativeWord bigEndian b0 b1 b2 b3 = word := by
    intro word
    have round := nativeWord_wordBytes bigEndian word
    cases bigEndian <;> exact ⟨_,_,_,_,rfl,round⟩
  obtain ⟨a0,a1,a2,a3,aBytes,aWord⟩ := whole to_
  obtain ⟨b0,b1,b2,b3,bBytes,bWord⟩ := whole from_
  obtain ⟨c0,c1,c2,c3,cBytes,cWord⟩ := whole length
  simp [headerWord,headerBytes,aBytes,bBytes,cBytes,aWord,bWord,cWord]

@[simp] theorem PacketHeader.ofBytes_bytes (hdr : PacketHeader) : PacketHeader.ofBytes bigEndian (hdr.bytes bigEndian) = hdr := by
  obtain ⟨one,two,three⟩ := headerWord_bytes bigEndian hdr.to_ hdr.from_ hdr.length
  simp only [PacketHeader.ofBytes,PacketHeader.bytes,one,two,three]

@[simp] theorem MailHeader.ofBytes_bytes (hdr : MailHeader) : MailHeader.ofBytes bigEndian (hdr.bytes bigEndian) = hdr := by
  obtain ⟨one,two,three⟩ := headerWord_bytes bigEndian hdr.to_ hdr.from_ hdr.length
  simp only [MailHeader.ofBytes,MailHeader.bytes,one,two,three]

@[simp] theorem PacketHeader.bytes_length (hdr : PacketHeader) : (hdr.bytes bigEndian).length = headerSize :=
  headerBytes_length bigEndian _ _ _

@[simp] theorem MailHeader.bytes_length (hdr : MailHeader) : (hdr.bytes bigEndian).length = headerSize :=
  headerBytes_length bigEndian _ _ _

-- The packet header that PostOffice::Send makes out of its argument.
def addressed (pktHdr : PacketHeader) (netAddr : BitVec 32) (mailHdr : MailHeader) : PacketHeader :=
  {pktHdr with from_ := netAddr, length := mailHdr.length + BitVec.ofNat 32 headerSize}

-- A buffer with the mail header and the payload at its start.
def Body (buffer : Block Byte size) (start : Nat) (mailHdr : MailHeader) (payload : List Byte) : Prop :=
  load buffer start (headerSize + payload.length) = some (mailHdr.bytes bigEndian ++ payload)

theorem addressed_length (pktHdr : PacketHeader) (netAddr : BitVec 32) (fits : mailHdr.length.toNat ≤ MaxMailSize) :
    (addressed pktHdr netAddr mailHdr).length.toNat = headerSize + mailHdr.length.toNat := by
  simp only [addressed,BitVec.toNat_add,BitVec.toNat_ofNat]
  simp only [MaxMailSize,MaxPacketSize,MaxWireSize,headerSize] at *
  omega

theorem network_send_body (network : Network ident) (from_ : hdr.from_ = ident) (length : hdr.length.toNat = headerSize + payload.length)
    (fits : payload.length ≤ MaxMailSize) (body : Body bigEndian data 0 mailHdr payload) (fresh : Block Byte MaxWireSize) :
    ∃ packet, (∀ fate, network.send bigEndian hdr data fresh fate =
        some (match fate with | .lost => ([],true) | .refused => ([],false) | .carried => ([packet],true))) ∧
      load packet 0 headerSize = some (hdr.bytes bigEndian) ∧ Body bigEndian packet headerSize mailHdr payload := by
  have room : headerSize + payload.length ≤ MaxPacketSize := by
    simp only [MaxMailSize,MaxPacketSize,MaxWireSize,headerSize] at *
    omega
  obtain ⟨headed,stored⟩ := store_total fresh 0 (hdr.bytes bigEndian) (by simp [MaxWireSize,headerSize])
  have header := load_store stored
  rw [PacketHeader.bytes_length] at header
  obtain ⟨packet,copied,behind,apart⟩ := copy_arrives body headed headerSize (by
    simp only [MaxPacketSize,MaxWireSize,headerSize] at *
    omega)
  refine ⟨packet,?_,(apart 0 headerSize (by omega)).trans header,behind⟩
  intro fate
  have checks : network.sendBusy = false ∧ 0 < hdr.length.toNat ∧ hdr.length.toNat ≤ MaxPacketSize ∧ hdr.from_ = ident :=
    ⟨network.idle,by rw [length]; simp [headerSize],by rw [length]; exact room,from_⟩
  rw [Network.send,if_pos checks,length]
  cases fate <;> simp [stored,copied]

theorem checkPktAvail_body (network : Network ident) (empty : network.inHdr.length = 0) (arrives : hdr.to_ = ident)
    (length : hdr.length.toNat = headerSize + payload.length) (fits : payload.length ≤ MaxMailSize)
    (header : load packet 0 headerSize = some (hdr.bytes bigEndian)) (body : Body bigEndian packet headerSize mailHdr payload)
    (sock : List (Block Byte MaxWireSize)) :
    ∃ after, network.checkPktAvail bigEndian (packet :: sock) = some (after,sock,true) ∧ after.inHdr = hdr ∧
      Body bigEndian after.inbox 0 mailHdr payload := by
  have room : headerSize + payload.length ≤ MaxPacketSize := by
    simp only [MaxMailSize,MaxPacketSize,MaxWireSize,headerSize] at *
    omega
  obtain ⟨inbox,copied,arrived,_⟩ := copy_arrives body network.inbox 0 (by omega)
  refine ⟨{network with inHdr := hdr, inbox := inbox},?_,rfl,arrived⟩
  unfold Network.checkPktAvail
  rw [if_neg (by simpa using empty)]
  have checks : hdr.to_ = ident ∧ hdr.length.toNat ≤ MaxPacketSize := ⟨arrives,by rw [length]; exact room⟩
  dsimp only
  refine Option.bind_eq_some_iff.mpr ⟨_,header,?_⟩
  rw [PacketHeader.ofBytes_bytes,if_pos checks,length]
  exact Option.bind_eq_some_iff.mpr ⟨_,copied,rfl⟩

theorem postalDelivery_body (office : PostOffice) (length : office.network.inHdr.length.toNat = headerSize + payload.length)
    (mailLength : mailHdr.length.toNat = payload.length)
    (fits : payload.length ≤ MaxMailSize) (body : Body bigEndian office.network.inbox 0 mailHdr payload)
    (box : 0 ≤ mailHdr.to_.toInt ∧ mailHdr.to_.toInt < office.numBoxes) (buffer : Block Byte MaxPacketSize)
    (fresh : Block Byte MaxMailSize) :
    ∃ (after : PostOffice) (mail : Mail), office.postalDelivery bigEndian buffer fresh = some after ∧
      after.boxes = Function.update office.boxes mailHdr.to_.toInt (office.boxes mailHdr.to_.toInt ++ [mail]) ∧
      after.numBoxes = office.numBoxes ∧ after.network.inHdr.length = 0 ∧
      mail.pktHdr = office.network.inHdr ∧ mail.mailHdr = mailHdr ∧ load mail.data 0 payload.length = some payload := by
  obtain ⟨filled,received,body,_⟩ := copy_arrives body buffer 0 (by
    simp only [MaxMailSize,MaxPacketSize,MaxWireSize,headerSize] at *
    omega)
  obtain ⟨header,content⟩ := load_parts (mailHdr.bytes bigEndian) payload (by
    rw [MailHeader.bytes_length]
    exact body)
  rw [MailHeader.bytes_length] at header content
  obtain ⟨data,copied,kept,_⟩ := copy_arrives content fresh 0 (by omega)
  have some_ : office.network.inHdr.length ≠ 0 := by
    intro zero
    rw [zero] at length
    simp [headerSize] at length
    omega
  let emptied : Network office.netAddr := {office.network with inHdr := {office.network.inHdr with length := 0}}
  refine ⟨{office with
    network := emptied
    boxes := Function.update office.boxes mailHdr.to_.toInt
      (office.boxes mailHdr.to_.toInt ++ [⟨office.network.inHdr,mailHdr,data⟩])},
    ⟨office.network.inHdr,mailHdr,data⟩,?_,rfl,rfl,rfl,rfl,rfl,kept⟩
  unfold PostOffice.postalDelivery
  have got : office.network.receive buffer = some (office.network.inHdr,emptied,filled) := by
    unfold Network.receive
    rw [if_pos some_,length]
    exact Option.bind_eq_some_iff.mpr ⟨_,received,rfl⟩
  refine Option.bind_eq_some_iff.mpr ⟨_,got,Option.bind_eq_some_iff.mpr ⟨_,header,?_⟩⟩
  rw [MailHeader.ofBytes_bytes,if_pos ⟨box.1,box.2,by omega⟩]
  refine Option.bind_eq_some_iff.mpr ⟨_,Option.bind_eq_some_iff.mpr ⟨_,?_,rfl⟩,rfl⟩
  unfold Mail.new
  rw [if_pos (by omega),mailLength]
  exact Option.bind_eq_some_iff.mpr ⟨_,copied,rfl⟩

theorem receive_body (office : PostOffice) (box : 0 ≤ place ∧ place < office.numBoxes)
    (first : office.boxes place = mail :: rest) (mailLength : mail.mailHdr.length.toNat = payload.length)
    (fits : payload.length ≤ MaxMailSize) (content : load mail.data 0 payload.length = some payload)
    (data : Block Byte size) (room : payload.length ≤ size) :
    ∃ after, office.receive place data =
        some ({office with boxes := Function.update office.boxes place rest},mail.pktHdr,mail.mailHdr,after) ∧
      load after 0 payload.length = some payload := by
  obtain ⟨after,copied,kept,_⟩ := copy_arrives content data 0 (by omega)
  refine ⟨after,?_,kept⟩
  unfold PostOffice.receive
  rw [if_pos box]
  have got : MailBox.get (office.boxes place) data = some (rest,mail.pktHdr,mail.mailHdr,after) := by
    rw [first]
    unfold MailBox.get
    dsimp only
    rw [mailLength]
    exact Option.bind_eq_some_iff.mpr ⟨_,copied,rfl⟩
  refine Option.bind_eq_some_iff.mpr ⟨_,got,?_⟩
  exact if_pos (by omega)

theorem send_body (office : PostOffice) (given : load data 0 mailHdr.length.toNat = some payload)
    (fits : mailHdr.length.toNat ≤ MaxMailSize) (box : 0 ≤ mailHdr.to_.toInt ∧ mailHdr.to_.toInt < office.numBoxes)
    (pktHdr : PacketHeader) (fresh : Block Byte MaxPacketSize) (freshPacket : Block Byte MaxWireSize) :
    ∃ packet, (∀ fate, office.send bigEndian pktHdr mailHdr data fresh freshPacket fate =
        some (match fate with | .lost => ([],true) | .refused => ([],false) | .carried => ([packet],true))) ∧
      load packet 0 headerSize = some ((addressed pktHdr office.netAddr mailHdr).bytes bigEndian) ∧
      Body bigEndian packet headerSize mailHdr payload := by
  have payloadLength := load_length given
  have length := addressed_length pktHdr office.netAddr fits
  obtain ⟨headed,stored⟩ := store_total fresh 0 (mailHdr.bytes bigEndian) (by simp [MaxPacketSize,MaxWireSize,headerSize])
  have header := load_store stored
  rw [MailHeader.bytes_length] at header
  obtain ⟨buffer,copied,behind,apart⟩ := copy_arrives given headed headerSize (by
    simp only [MaxMailSize,MaxPacketSize,MaxWireSize,headerSize] at *
    omega)
  have body : Body bigEndian buffer 0 mailHdr payload := by
    rw [← payloadLength] at behind
    exact load_append ((apart 0 headerSize (by omega)).trans header) (by rwa [Nat.zero_add])
  rw [← payloadLength] at length fits
  obtain ⟨packet,sent,front,carried⟩ := network_send_body bigEndian office.network rfl length fits body freshPacket
  refine ⟨packet,?_,front,carried⟩
  intro fate
  unfold PostOffice.send
  rw [if_pos ⟨by omega,box⟩]
  exact Option.bind_eq_some_iff.mpr ⟨_,stored,Option.bind_eq_some_iff.mpr ⟨_,copied,sent fate⟩⟩

-- A mail goes through the buffers of both machines unchanged, whatever they held
-- before: no ASSERT fails and no copy leaves its buffer. Whoever gets it is told the
-- address of the sender and the length with the mail header.
theorem mail_round_trip (sender receiver : PostOffice) (pktHdr : PacketHeader) (mailHdr : MailHeader)
    (payload : List Byte) (data : Block Byte size) (given : load data 0 mailHdr.length.toNat = some payload)
    (fits : mailHdr.length.toNat ≤ MaxMailSize) (box : 0 ≤ mailHdr.to_.toInt ∧ mailHdr.to_.toInt < sender.numBoxes)
    (same : receiver.numBoxes = sender.numBoxes) (destination : receiver.netAddr = pktHdr.to_)
    (empty : receiver.network.inHdr.length = 0) (fresh : Block Byte MaxPacketSize) (freshPacket : Block Byte MaxWireSize) :
    ∃ packet, (∀ fate, sender.send bigEndian pktHdr mailHdr data fresh freshPacket fate =
        some (match fate with | .lost => ([],true) | .refused => ([],false) | .carried => ([packet],true))) ∧
      ∀ sock, ∃ network, receiver.network.checkPktAvail bigEndian (packet :: sock) = some (network,sock,true) ∧
      ∀ buffer freshMail, ∃ (delivered : PostOffice) (mail : Mail),
        ({receiver with network := network} : PostOffice).postalDelivery bigEndian buffer freshMail = some delivered ∧
        delivered.boxes = Function.update receiver.boxes mailHdr.to_.toInt (receiver.boxes mailHdr.to_.toInt ++ [mail]) ∧
      ∀ (later : PostOffice) rest, later.numBoxes = receiver.numBoxes → later.boxes mailHdr.to_.toInt = mail :: rest →
      ∀ (room : Nat) (target : Block Byte room), mailHdr.length.toNat ≤ room → ∃ (inPktHdr : PacketHeader) (after : Block Byte room),
        later.receive mailHdr.to_.toInt target =
          some ({later with boxes := Function.update later.boxes mailHdr.to_.toInt rest},inPktHdr,mailHdr,after) ∧
        load after 0 mailHdr.length.toNat = some payload ∧
        inPktHdr.to_ = pktHdr.to_ ∧ inPktHdr.from_ = sender.netAddr ∧
        inPktHdr.length.toNat = payload.length + headerSize := by
  have payloadLength := load_length given
  have length := addressed_length pktHdr sender.netAddr fits
  obtain ⟨packet,sent,front,body⟩ := send_body bigEndian sender given fits box pktHdr fresh freshPacket
  rw [← payloadLength] at length fits ⊢
  refine ⟨packet,sent,?_⟩
  intro sock
  have arrives : (addressed pktHdr sender.netAddr mailHdr).to_ = receiver.netAddr := destination.symm
  obtain ⟨network,polled,inHdr,arrived⟩ :=
    checkPktAvail_body bigEndian receiver.network empty arrives length fits front body sock
  refine ⟨network,polled,?_⟩
  intro buffer freshMail
  obtain ⟨delivered,mail,done,boxes,_,_,packetOf,mailOf,content⟩ :=
    postalDelivery_body bigEndian {receiver with network := network} (by rw [inHdr]; exact length) payloadLength.symm fits arrived
      (by rw [same]; exact box) buffer freshMail
  refine ⟨delivered,mail,done,boxes,?_⟩
  intro later rest count first room target enough
  obtain ⟨after,got,kept⟩ := receive_body later (by rw [count,same]; exact box) first
    (by rw [mailOf]; exact payloadLength.symm) fits content target enough
  refine ⟨_,after,mailOf ▸ got,kept,?_,?_,?_⟩
  all_goals rw [packetOf,inHdr]
  · rfl
  · rfl
  · rw [length,Nat.add_comm]

end

-- Machine 1 sends the two bytes of "Hi" to the last mailbox of machine 2.
def blank : Block Byte size := fun _ => 0

def hi : Block Byte 2 := fun i => if i.val = 0 then 0x48 else 0x69

theorem mail_round_trip_hi : ∃ packet, (PostOffice.new 1 10 ⟨0,0,0⟩ blank).send false ⟨2,0,0⟩ ⟨9,3,2⟩ hi blank blank .carried =
      some ([packet],true) ∧
    ∃ network, (PostOffice.new 2 10 ⟨0,0,0⟩ blank).network.checkPktAvail false [packet] = some (network,[],true) := by
  obtain ⟨packet,sent,way⟩ := mail_round_trip false (PostOffice.new 1 10 ⟨0,0,0⟩ blank) (PostOffice.new 2 10 ⟨0,0,0⟩ blank)
    ⟨2,0,0⟩ ⟨9,3,2⟩ [0x48,0x69] hi (by decide) (by decide) (by decide) rfl rfl rfl blank blank
  obtain ⟨network,polled,_⟩ := way []
  exact ⟨packet,sent .carried,network,polled⟩

end Nachos.Wire
