import AeordbSync.Relationships

namespace AeordbSync
open Characters OsPath

/-- The Kelvin sign is the only other character whose lower case is an ASCII letter. -/
def lowercaseExtension (extension : Text) : Text :=
  extension.map fun c => if c = '\u212A' then 'k' else c.toLower

def mimeTypes : List (List String × String) :=
  [(["json"], "application/json"), (["txt"], "text/plain"), (["md", "markdown"], "text/markdown"),
    (["html", "htm"], "text/html"), (["css"], "text/css"),
    (["js", "mjs"], "application/javascript"), (["xml"], "application/xml"), (["csv"], "text/csv"),
    (["pdf"], "application/pdf"), (["png"], "image/png"), (["jpg", "jpeg"], "image/jpeg"),
    (["gif"], "image/gif"), (["svg"], "image/svg+xml"), (["webp"], "image/webp"),
    (["mp4", "m4v"], "video/mp4"), (["webm"], "video/webm"), (["ogv", "ogg"], "video/ogg"),
    (["mov"], "video/quicktime"), (["avi"], "video/x-msvideo"), (["mkv"], "video/x-matroska"),
    (["mp3"], "audio/mpeg"), (["wav"], "audio/wav"), (["flac"], "audio/flac"),
    (["aac"], "audio/aac"), (["m4a"], "audio/mp4"), (["zip"], "application/zip"),
    (["tar"], "application/x-tar"), (["gz"], "application/gzip"),
    (["yaml", "yml"], "application/yaml"), (["toml"], "application/toml"),
    (["rs"], "text/x-rust"), (["py"], "text/x-python")]

def mimeOf (extension : Text) : Text :=
  match mimeTypes.find? fun entry => entry.1.any fun name => text name = extension with
  | some entry => text entry.2
  | none => text "application/octet-stream"

def mimeFromExtension (path : PathBuf) : Option Text :=
  ((extension path).bind toStr?).map fun name => mimeOf (lowercaseExtension name)

example : mimeFromExtension (ofText (osText "movie.MP4".toList)) = some "video/mp4".toList := by decide

end AeordbSync
