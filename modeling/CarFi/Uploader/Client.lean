import CarFi.Uploader.Protocol

/-!
# One upload on the client

`UploaderClient._upload` as a program: it sends the name of a tarball, its size and content and
the digest of what it read, and removes the tarball when the digest that comes back is the same.
-/
namespace CarFi.Uploader

open Library

namespace Client

/-- The points of `_upload` at which a call is made. -/
inductive Pc where
  | connecting
  | sendNameLen (hdr : Bytes)
  | sendName
  | stat
  | opening (tarFs : Nat)
  | sendSize (tarFs : Nat) (hdr : Bytes)
  | reading (tarFs : Int)
  | sending (tarFs : Int) (chunk : Bytes)
  | sendDigestLen (hdr : Bytes)
  | sendDigest
  | recvLen (r : RecvMsg)
  | recvDigest (r : RecvMsg)
  | removing
  | closing
  | closingSocket
  | done

/-- The state of an upload: its point, whether `self._tar_file` is set and the bytes given to
`self._local_md5`. -/
structure Upload where
  pc : Pc := .connecting
  tarFile : Bool := false
  localMd5 : Bytes := []

section Program

variable (tarDir tarName : Bytes) (hexdigest : Bytes → Bytes)

def tarPath : Bytes := join tarDir tarName

/-- `"rm -rf {}".format(tar_path)` -/
def rmCommand : Bytes := ascii "rm -rf " ++ tarPath tarDir tarName

/-- `4096 if tar_fs > 4096 else tar_fs` -/
def chunkSize (tarFs : Int) : Nat := (if tarFs > chunkLimit then chunkLimit else tarFs).toNat

/-- The `finally` block. -/
def Upload.finish (u : Upload) : Upload :=
  { u with pc := if u.tarFile then .closing else .closingSocket }

/-- A number goes out with the header `struct.pack("!i", n)`. -/
def Upload.packed (u : Upload) (n : Nat) (pc : Bytes → Pc) : Upload :=
  match packInt n with
  | some hdr => { u with pc := pc hdr }
  | none => u.finish

/-- `tar_name.encode("utf-8")`, which raises for a name whose bytes are no text. -/
def Upload.connected (u : Upload) : Upload :=
  if isUtf8 tarName then u.packed tarName.length .sendNameLen else u.finish

/-- The head of the loop over the content. -/
def Upload.nextChunk (u : Upload) (tarFs : Int) : Upload :=
  if tarFs > 0 then { u with pc := .reading tarFs }
  else u.packed (hexdigest u.localMd5).length .sendDigestLen

/-- `_recv_msg` on the socket of the client. -/
def Upload.recvMsg (u : Upload) (pc : RecvMsg → Pc) (k : Bytes → Upload) (r : RecvMsg) :
    Upload :=
  r.loop (fun r => { u with pc := pc r }) k

def Upload.gotDigest (u : Upload) (peerDigest : Bytes) : Upload :=
  if isUtf8 peerDigest ∧ hexdigest u.localMd5 = peerDigest then { u with pc := .removing }
  else u.finish

def Upload.gotLen (u : Upload) (msg : Bytes) : Upload :=
  u.recvMsg .recvDigest (u.gotDigest hexdigest) { left := unpackInt msg }

/-- The call that an upload is in. -/
def Upload.op (u : Upload) : Option Op :=
  match u.pc with
  | .connecting => some .connect
  | .sendNameLen hdr | .sendSize _ hdr | .sendDigestLen hdr => some (.send hdr)
  | .sendName => some (.send tarName)
  | .stat => some (.getsize (tarPath tarDir tarName))
  | .opening _ => some (.openRead (tarPath tarDir tarName))
  | .reading tarFs => some (.read (chunkSize tarFs))
  | .sending _ chunk => some (.send chunk)
  | .sendDigest => some (.send (hexdigest u.localMd5))
  | .recvLen r | .recvDigest r => some (.recv r.left)
  | .removing => some (.system (rmCommand tarDir tarName))
  | .closing => some .closeFile
  | .closingSocket => some .closeSocket
  | .done => none

/-- The state after the call. -/
def Upload.resume (u : Upload) (res : Res) : Upload :=
  match u.pc, res with
  | .connecting, .done => u.connected tarName
  | .sendNameLen _, .done => { u with pc := .sendName }
  | .sendName, .done => { u with pc := .stat }
  | .stat, .size tarFs => { u with pc := .opening tarFs }
  | .opening tarFs, .done => { u with tarFile := true }.packed tarFs (.sendSize tarFs)
  | .sendSize tarFs _, .done => u.nextChunk hexdigest tarFs
  | .reading tarFs, .bytes chunk => { u with pc := .sending tarFs chunk }
  | .sending tarFs chunk, .done =>
    { u with localMd5 := u.localMd5 ++ chunk }.nextChunk hexdigest (tarFs - chunk.length)
  | .sendDigestLen _, .done => { u with pc := .sendDigest }
  | .sendDigest, .done => { u with pc := .recvLen { left := msgHdrLen } }
  | .recvLen r, .bytes tmp => u.recvMsg .recvLen (u.gotLen hexdigest) (r.add tmp)
  | .recvDigest r, .bytes tmp => u.recvMsg .recvDigest (u.gotDigest hexdigest) (r.add tmp)
  | .removing, .done => u.finish
  | .closing, .done => { u with pc := .closingSocket }
  | .closing, .raised => { u with pc := .done }
  | .closingSocket, _ => { u with pc := .done }
  | .done, _ => u
  | _, _ => u.finish

end Program

end Client

end CarFi.Uploader
