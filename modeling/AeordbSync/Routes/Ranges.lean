import AeordbSync.Errors
import AeordbSync.Library.FileCalls

namespace AeordbSync
open Characters OsPath FileSystem

def contentTypes : List (List String × String) :=
  [(["html", "htm"], "text/html"), (["css"], "text/css"), (["js"], "application/javascript"),
    (["json"], "application/json"), (["xml"], "application/xml"), (["txt"], "text/plain"),
    (["md"], "text/markdown"), (["csv"], "text/csv"), (["pdf"], "application/pdf"),
    (["png"], "image/png"), (["jpg", "jpeg"], "image/jpeg"), (["gif"], "image/gif"),
    (["svg"], "image/svg+xml"), (["webp"], "image/webp"), (["mp4", "m4v"], "video/mp4"),
    (["webm"], "video/webm"), (["ogv", "ogg"], "video/ogg"), (["mov"], "video/quicktime"),
    (["avi"], "video/x-msvideo"), (["mkv"], "video/x-matroska"), (["mp3"], "audio/mpeg"),
    (["wav"], "audio/wav"), (["flac"], "audio/flac"), (["aac"], "audio/aac"),
    (["m4a"], "audio/mp4"), (["zip"], "application/zip"), (["gz", "gzip"], "application/gzip"),
    (["tar"], "application/x-tar"), (["yaml", "yml"], "application/yaml"),
    (["toml"], "application/toml"), (["wasm"], "application/wasm")]

/-- What follows the last dot of the path decides, or the whole path when it has no dot. -/
def guessContentType (path : Text) : Text :=
  let extension := toAsciiLowercase (path.rtakeWhile (· ≠ '.'))
  match contentTypes.find? fun entry => entry.1.any fun name => text name = extension with
  | some entry => text entry.2
  | none => text "application/octet-stream"

structure ByteRange where
  first : Nat
  last : Nat
  deriving DecidableEq

def ByteRange.len (range : ByteRange) : Nat := range.last - range.first + 1

/-- A header is absent, unreadable or a text; a unit other than bytes is ignored. -/
def parseByteRange (rangeHeader : Option (Option Text)) (fileLen : Nat) : Except Unit (Option ByteRange) :=
  match rangeHeader with
  | none => .ok none
  | some none => .error ()
  | some (some rangeValue) =>
      if text "bytes=" <+: trim rangeValue then
        let spec := (trim rangeValue).drop (text "bytes=").length
        if fileLen = 0 ∨ ',' ∈ spec then .error ()
        else match splitOnce '-' spec with
          | none => .error ()
          | some ([], endRaw) => match parseUnsigned 64 endRaw with
            | none => .error ()
            | some suffixLen =>
                if suffixLen = 0 then .error () else .ok (some ⟨fileLen - suffixLen, fileLen - 1⟩)
          | some (startRaw, endRaw) => match parseUnsigned 64 startRaw with
            | none => .error ()
            | some start =>
                if fileLen ≤ start then .error ()
                else
                  let last := if endRaw = [] then some (fileLen - 1)
                    else (parseUnsigned 64 endRaw).map fun last => min last (fileLen - 1)
                  match last with
                  | none => .error ()
                  | some last => if last < start then .error () else .ok (some ⟨start, last⟩)
      else .ok none

structure FileResponse where
  status : Nat
  headers : List (Text × Text)
  body : Except IoError Bytes

/-- The length and the time that the system gives for an entry that is no regular file. -/
structure OtherMetadata where
  len : Location → Nat
  modified : Location → Option Int

def lastModifiedMillis (modified : Option Int) : Option Text :=
  modified.bind fun time => if time < 0 then none else some (decimal time.toNat)

def updatedHeader (modifiedMs : Option Text) : List (Text × Text) :=
  modifiedMs.toList.map fun modifiedMs => (text "x-aeordb-updated", modifiedMs)

/-- The open file, its length and its time; only a regular file can be read. -/
structure OpenFile where
  len : Nat
  modified : Option Int
  content : Except IoError Bytes

def openLocalFile (other : OtherMetadata) (disk : Tree) (path : PathBuf) : Except IoError OpenFile :=
  match disk.resolve true path with
  | .error error => .error error
  | .ok l => match disk.node l with
    | none => .error .notFound
    | some (.file content time) => .ok ⟨content.length, some time, .ok content⟩
    | some .directory => .ok ⟨other.len l, other.modified l, .error .isADirectory⟩
    | some _ => .ok ⟨other.len l, other.modified l, .error .permissionDenied⟩

def serveLocalFile (other : OtherMetadata) (disk : Tree) (localPath : PathBuf) (relativePath : Text)
    (rangeHeader : Option (Option Text)) : Except ClientError FileResponse :=
  match openLocalFile other disk localPath with
  | .error error => .error (.server error.text)
  | .ok file =>
      let updated := updatedHeader (lastModifiedMillis file.modified)
      let length := decimal file.len
      let common := [(text "content-type", guessContentType relativePath),
        (text "accept-ranges", text "bytes"), (text "x-aeordb-size", length)] ++ updated
      match parseByteRange rangeHeader file.len with
      | .error () => .ok ⟨416, [(text "accept-ranges", text "bytes"),
          (text "content-range", text "bytes */" ++ length), (text "content-length", text "0")] ++ updated, .ok []⟩
      | .ok (some range) => .ok ⟨206, common ++
          [(text "content-range", text "bytes " ++ decimal range.first ++ text "-" ++ decimal range.last ++
              text "/" ++ length), (text "content-length", decimal range.len)],
          file.content.map fun content => (content.drop range.first).take range.len⟩
      | .ok none => .ok ⟨200, common ++ [(text "content-length", length)], file.content⟩

example : parseByteRange (some (some (text "bytes=2-5"))) 10 = .ok (some ⟨2, 5⟩) := by decide

end AeordbSync
