import SealedCall.Text.Basic

/-! # Resident modules

The modules that are in place before any action module is loaded, because the command line itself is
made with them. Loading one of them again changes nothing, whatever module bears the same name.
-/

namespace SealedCall.Resident

/-- The resident modules below which other modules may lie. -/
def packageNames : List String :=
  ["actionseal", "asyncio", "collections", "concurrent", "email", "encodings", "http",
   "importlib", "json", "logging", "re", "urllib"]

def plainNames : List String :=
  ["abc", "argparse", "ast", "atexit", "base64", "binascii", "bisect", "builtins", "calendar",
   "codecs", "contextlib", "contextvars", "copy", "copyreg", "dataclasses", "datetime",
   "decimal", "dis", "enum", "errno", "fnmatch", "functools", "genericpath", "gettext",
   "hashlib", "heapq", "hmac", "inspect", "io", "ipaddress", "itertools", "keyword",
   "linecache", "locale", "marshal", "math", "numbers", "opcode", "operator", "os", "os.path",
   "pathlib", "platform", "posix", "posixpath", "quopri", "random", "reprlib", "secrets",
   "select", "selectors", "shutil", "signal", "site", "socket", "ssl", "stat", "string",
   "struct", "subprocess", "sys", "tempfile", "textwrap", "threading", "time", "token",
   "tokenize", "traceback", "types", "typing", "uuid", "warnings", "weakref", "zipimport",
   "zlib"]

/-- Whether a name is that of a resident module below which others may lie. -/
def isPackage (name : Text) : Bool :=
  packageNames.any fun resident => Text.of resident == name

def isLoaded (name : Text) : Bool :=
  isPackage name || plainNames.any fun resident => Text.of resident == name

end SealedCall.Resident
