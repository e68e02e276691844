import DeliveryPath.Text.Base64Url

/-!
# Custom functions
-/

namespace DeliveryPath

/-- A function of the user's that is applied to an asset. -/
inductive CustomFunction where
  /-- A WebAssembly module that was uploaded under a public id. -/
  | wasm (publicId : String)
  /-- A function that is called at a URL. -/
  | remote (url : String)

def CustomFunction.render : CustomFunction → String
  | wasm publicId => "wasm:" ++ publicId
  | remote url => "remote:" ++ Base64Url.encodeText url

end DeliveryPath
