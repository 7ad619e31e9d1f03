import CarFi.Uploader.Protocol

/-!
# The thread of a connection on the server

`ClientProcessor.run` as a program: it receives a name, opens the file of that name in
`recv_dir`, receives the content in chunks and a digest, moves the file to `tar_dir` when the
digests agree, and answers with its own digest. An exception anywhere leads to the `finally`
block, which closes the file if it was opened and the socket.
-/
namespace CarFi.Uploader

open Library

namespace Server

/-- The points of `run` at which a call is made. -/
inductive Pc where
  | nameLen (r : RecvMsg)
  | name (r : RecvMsg)
  | opening
  | sizeLen (r : RecvMsg)
  | content (msgLen : Int) (r : RecvMsg)
  | writing (msgLen : Int) (chunk : Bytes)
  | flushing
  | digestLen (r : RecvMsg)
  | digest (r : RecvMsg)
  | moving
  | sendLen (hdr : Bytes)
  | sendDigest
  | closing
  | closingSocket
  | done

/-- The state of a thread: its point, `file_name`, whether `self._tar_file` is set, the bytes
given to `self._local_md5` and `peer_digest`. -/
structure Handler where
  pc : Pc := .nameLen { left := msgHdrLen }
  fileName : Bytes := []
  tarFile : Bool := false
  localMd5 : Bytes := []
  peerDigest : Bytes := []

section Program

variable (recvDir tarDir : Bytes) (hexdigest : Bytes → Bytes)

def Handler.filePath (h : Handler) : Bytes := join recvDir h.fileName

/-- `"mv {} {}".format(file_path, self._tar_dir)` -/
def mvCommand (filePath : Bytes) : Bytes := ascii "mv " ++ filePath ++ ascii " " ++ tarDir

/-- The `finally` block. -/
def Handler.finish (h : Handler) : Handler :=
  { h with pc := if h.tarFile then .closing else .closingSocket }

/-- `_recv_msg` on the socket of the thread. -/
def Handler.recvMsg (h : Handler) (pc : RecvMsg → Pc) (k : Bytes → Handler) (r : RecvMsg) :
    Handler :=
  r.loop (fun r => { h with pc := pc r }) k

/-- The local digest is sent after its length. -/
def Handler.reply (h : Handler) : Handler :=
  match packInt (hexdigest h.localMd5).length with
  | some hdr => { h with pc := .sendLen hdr }
  | none => h.finish

def Handler.gotDigest (h : Handler) (msg : Bytes) : Handler :=
  if isUtf8 msg then
    let h := { h with peerDigest := msg }
    if h.peerDigest = hexdigest h.localMd5 then { h with pc := .moving } else h.reply hexdigest
  else h.finish

def Handler.gotDigestLen (h : Handler) (msg : Bytes) : Handler :=
  h.recvMsg .digest (h.gotDigest hexdigest) { left := unpackInt msg }

/-- The head of the loop over the content. -/
def Handler.nextChunk (h : Handler) (msgLen : Int) : Handler :=
  if msgLen > 0 then
    let chunkSize := if msgLen > chunkLimit then chunkLimit else msgLen
    { h with pc := .content (msgLen - chunkSize) { left := chunkSize } }
  else { h with pc := .flushing }

def Handler.gotName (h : Handler) (msg : Bytes) : Handler :=
  if isUtf8 msg then { h with pc := .opening, fileName := msg } else h.finish

def Handler.gotNameLen (h : Handler) (msg : Bytes) : Handler :=
  h.recvMsg .name h.gotName { left := unpackInt msg }

/-- The call that a thread is in. -/
def Handler.op (h : Handler) : Option Op :=
  match h.pc with
  | .nameLen r | .name r | .sizeLen r | .content _ r | .digestLen r | .digest r =>
    some (.recv r.left)
  | .opening => some (.openWrite (h.filePath recvDir))
  | .writing _ chunk => some (.write chunk)
  | .flushing => some .flush
  | .moving => some (.system (mvCommand tarDir (h.filePath recvDir)))
  | .sendLen hdr => some (.send hdr)
  | .sendDigest => some (.send (hexdigest h.localMd5))
  | .closing => some .closeFile
  | .closingSocket => some .closeSocket
  | .done => none

/-- The state after the call. -/
def Handler.resume (h : Handler) (res : Res) : Handler :=
  match h.pc, res with
  | .nameLen r, .bytes tmp => h.recvMsg .nameLen h.gotNameLen (r.add tmp)
  | .name r, .bytes tmp => h.recvMsg .name h.gotName (r.add tmp)
  | .opening, .done => { h with pc := .sizeLen { left := msgHdrLen }, tarFile := true }
  | .sizeLen r, .bytes tmp =>
    h.recvMsg .sizeLen (fun msg => h.nextChunk (unpackInt msg)) (r.add tmp)
  | .content msgLen r, .bytes tmp =>
    h.recvMsg (.content msgLen) (fun chunk => { h with pc := .writing msgLen chunk }) (r.add tmp)
  | .writing msgLen chunk, .done =>
    { h with localMd5 := h.localMd5 ++ chunk }.nextChunk msgLen
  | .flushing, .done => { h with pc := .digestLen { left := msgHdrLen } }
  | .digestLen r, .bytes tmp => h.recvMsg .digestLen (h.gotDigestLen hexdigest) (r.add tmp)
  | .digest r, .bytes tmp => h.recvMsg .digest (h.gotDigest hexdigest) (r.add tmp)
  | .moving, .done => h.reply hexdigest
  | .sendLen _, .done => { h with pc := .sendDigest }
  | .sendDigest, .done => h.finish
  | .closing, .done => { h with pc := .closingSocket }
  | .closing, .raised => { h with pc := .done }
  | .closingSocket, _ => { h with pc := .done }
  | .done, _ => h
  | _, _ => h.finish

end Program

end Server

end CarFi.Uploader
