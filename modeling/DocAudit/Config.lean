import DocAudit.FileName

/-!
# Configuration

What an audit can be told: where the documentation lies, which files are
images, which openings of links are deprecated, which belong to downloadable
assets, and which marker makes a link rooted.

The root can be a file name that is no text.
-/

namespace DocAudit

/-- The configuration of an audit. -/
structure Config where
  /-- The root of the documentation. -/
  root : RootName
  /-- The extensions of images, their dots included.  Images are not audited, and links to them
  are not checked. -/
  imageExtensions : List Text
  /-- The openings of links that are no longer valid. -/
  deprecatedLeads : List Text
  /-- The openings of links to assets, which are not checked. -/
  assetLeads : List Text
  /-- The marker that makes a link rooted. -/
  rootMarker : Text
deriving DecidableEq, Repr

namespace Config

/-- The root of the documentation, unless one is given. -/
def defaultRoot : RootName := .path (.ofString "docs")

/-- The extensions of images, unless others are given. -/
def defaultImageExtensions : List Text :=
  [text ".gif", text ".jpg", text ".jpeg", text ".png", text ".webp"]

/-- The deprecated openings of links, unless others are given. -/
def defaultDeprecatedLeads : List Text := [text "pages/"]

/-- The marker of rooted links, unless another one is given. -/
def defaultRootMarker : Text := text "/docs/"

/-- The configuration without any settings.  No assets are known in it. -/
def standard : Config :=
  ⟨defaultRoot, defaultImageExtensions, defaultDeprecatedLeads, [], defaultRootMarker⟩

/-- Whether an extension, its dot included, is one of an image. -/
def isImageExtension (config : Config) (extension : Text) : Bool :=
  config.imageExtensions.contains extension

/-- Adds an opening of asset links, unless it is known already. -/
def addAssetLead (config : Config) (lead : Text) : Config :=
  if config.assetLeads.contains lead then config
  else { config with assetLeads := config.assetLeads ++ [lead] }

end Config

end DocAudit
