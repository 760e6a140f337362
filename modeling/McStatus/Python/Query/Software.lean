import McStatus.Python.Motd.Simplify
import McStatus.Query.Plugins

/-!
This module contains the software of a query response in `mcstatus/responses/query.py`.
-/

namespace McStatus

open Query

namespace Python

structure QuerySoftware where
  version : List Char
  brand : List Char
  plugins : List (List Char)
  deriving DecidableEq, Repr

namespace QuerySoftware

def parsePlugins (plugins : List Char) : List Char × List (List Char) :=
  if plugins.isEmpty then
    ("vanilla".toList, [])
  else
    match splitOnce ':' plugins with
    | none => (strip isSpaceChar plugins, [])
    | some (brand, rest) => (strip isSpaceChar brand, (rest.splitOn ';').map (strip isSpaceChar))

def build (version plugins : List Char) : QuerySoftware :=
  let (brand, parsed_plugins) := parsePlugins plugins
  { version, brand, plugins := parsed_plugins }

theorem isSpace_of_isSpaceChar (c : Char) (hc : c.toNat < 0x80) (h : isSpaceChar c = true)
    : isSpace c = true := by
  have hall : ∀ n < 0x80, isSpaceChar (Char.ofNat n) = true → isSpace (Char.ofNat n) = true := by
    decide
  rw [← Char.ofNat_toNat c] at h ⊢
  exact hall c.toNat hc h

theorem parsePlugins_pluginsLine (brand : Word ':') (plugins : List (Word ';'))
    : parsePlugins (pluginsLine brand plugins) = (brand.chars, plugins.map Word.chars) := by
  have hbrand := brand.strip_chars isSpace_of_isSpaceChar
  rw [parsePlugins]
  by_cases hnil : plugins = []
  . rw [pluginsLine, if_pos hnil, if_neg (by simpa using brand.ne_nil),
      splitOnce_eq_none_iff.mpr brand.sep_free, hnil]
    dsimp only
    rw [hbrand]
    rfl
  . rw [pluginsLine, if_neg hnil, if_neg (by simp),
      splitOnce_eq_some_iff.mpr ⟨rfl, brand.sep_free⟩]
    dsimp only
    rw [hbrand, map_strip_splitOn plugins hnil isSpace_of_isSpaceChar rfl]

theorem build_pluginsLine (version : List Char) (brand : Word ':') (plugins : List (Word ';'))
    : build version (pluginsLine brand plugins)
        = { version, brand := brand.chars, plugins := plugins.map Word.chars } := by
  rw [build, parsePlugins_pluginsLine]

end QuerySoftware

end Python

end McStatus
