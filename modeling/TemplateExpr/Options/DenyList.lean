import TemplateExpr.Options.Basic

namespace TemplateExpr

structure DenyList where
  extra : List String := []
  deriving DecidableEq

namespace DenyList

def builtin : List String :=
  ["window", "self", "globalThis", "global", "document", "top", "parent", "frames", "opener",
    "location", "navigator", "history", "localStorage", "sessionStorage", "indexedDB", "cookie",
    "process", "require", "module", "exports", "this",
    "eval", "Function", "setTimeout", "setInterval", "setImmediate", "fetch", "XMLHttpRequest",
    "WebSocket", "Worker", "importScripts", "alert", "confirm", "prompt",
    "constructor", "prototype", "__proto__",
    "onabort", "onbeforeunload", "onblur", "onchange", "onclick", "oncontextmenu", "oncopy",
    "oncut", "ondblclick", "ondrag", "ondrop", "onerror", "onfocus", "onhashchange", "oninput",
    "onkeydown", "onkeypress", "onkeyup", "onload", "onmessage", "onmousedown", "onmousemove",
    "onmouseout", "onmouseover", "onmouseup", "onpaste", "onpopstate", "onreset", "onresize",
    "onscroll", "onselect", "onstorage", "onsubmit", "ontouchend", "ontouchmove",
    "ontouchstart", "onunload", "onwheel"]

def contains (d : DenyList) (name : String) : Bool :=
  decide (name ∈ builtin ∨ name ∈ d.extra)

end DenyList

def Options.denyList (o : Options) : DenyList :=
  ⟨o.denied⟩

end TemplateExpr
