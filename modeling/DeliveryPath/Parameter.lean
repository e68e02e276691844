/-!
# Parameters

The parameters that a path knows, each with the name under which a transformation holds its value. A
transformation may hold values under other names as well: a user variable's, or any text.
-/

namespace DeliveryPath

inductive Parameter where
  | width | height | size | crop | aspectRatio | background | color | border | effect | angle | flags | opacity
  | quality | radius | x | y | zoom | gravity | dpr | defaultImage | density | page | spritePrefix | colorSpace
  | delay | fetchFormat | overlay | underlay | customFunction | startOffset | endOffset | duration | offset
  | videoCodec | audioCodec | audioFrequency | bitRate | videoSampling | fps | keyframeInterval
  | streamingProfile | condition | assignments | rawTransformation | named | responsiveWidth
deriving DecidableEq

namespace Parameter

def name : Parameter → String
  | width => "width"
  | height => "height"
  | size => "size"
  | crop => "crop"
  | aspectRatio => "aspect_ratio"
  | background => "background"
  | color => "color"
  | border => "border"
  | effect => "effect"
  | angle => "angle"
  | flags => "flags"
  | opacity => "opacity"
  | quality => "quality"
  | radius => "radius"
  | x => "x"
  | y => "y"
  | zoom => "zoom"
  | gravity => "gravity"
  | dpr => "dpr"
  | defaultImage => "default_image"
  | density => "density"
  | page => "page"
  | spritePrefix => "prefix"
  | colorSpace => "color_space"
  | delay => "delay"
  | fetchFormat => "fetch_format"
  | overlay => "overlay"
  | underlay => "underlay"
  | customFunction => "custom_function"
  | startOffset => "start_offset"
  | endOffset => "end_offset"
  | duration => "duration"
  | offset => "offset"
  | videoCodec => "video_codec"
  | audioCodec => "audio_codec"
  | audioFrequency => "audio_frequency"
  | bitRate => "bit_rate"
  | videoSampling => "video_sampling"
  | fps => "fps"
  | keyframeInterval => "keyframe_interval"
  | streamingProfile => "streaming_profile"
  | condition => "if"
  | assignments => "variables"
  | rawTransformation => "raw_transformation"
  | named => "transformation"
  | responsiveWidth => "responsive_width"

/-- The parameters whose values go into a path as they are, with the keys they have there, by key. -/
def verbatim : List (String × Parameter) :=
  [("ac", audioCodec), ("af", audioFrequency), ("bo", border), ("br", bitRate), ("cs", colorSpace),
   ("d", defaultImage), ("dl", delay), ("dn", density), ("f", fetchFormat), ("fps", fps), ("g", gravity),
   ("ki", keyframeInterval), ("l", overlay), ("p", spritePrefix), ("pg", page), ("sp", streamingProfile),
   ("u", underlay), ("vs", videoSampling)]

end Parameter

end DeliveryPath
